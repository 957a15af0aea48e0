import Lockstep.Data.Value
import Lockstep.Toml.Text

/-!
# Tables under construction

The tables of a document are given piecemeal: by headers, and by keys that lead
through other tables. A table that was stated as a whole is closed to dotted
keys, and one that came about by a dotted key is closed to headers; the origin
of each table is kept for that.
-/

namespace Lockstep.Toml

/-- How a table came about. -/
inductive Origin where
  /-- By a header of its own, or as the outermost table. -/
  | stated
  /-- By the header of a table inside it. -/
  | implied
  /-- By a dotted key. -/
  | dotted
deriving DecidableEq, Repr

mutual

/-- What a name stands for in a table under construction. -/
inductive Item where
  | value (v : Value)
  | table (t : Table)
  /-- A sequence of tables of which the last is under construction. -/
  | tables (last : Table) (earlier : List Table)

/-- A table under construction. -/
inductive Table where
  | mk (origin : Origin) (entries : List (String × Item))

end

namespace Table

def origin : Table → Origin
  | mk o _ => o

def entries : Table → List (String × Item)
  | mk _ es => es

def get? (t : Table) (name : String) : Option Item :=
  (t.entries.find? (·.1 == name)).map Prod.snd

/-- Gives a name a meaning, in the place of the one that it had. -/
def put (t : Table) (name : String) (i : Item) : Table :=
  if t.entries.any (·.1 == name) then
    mk t.origin (t.entries.map fun e => if e.1 == name then (name, i) else e)
  else mk t.origin (t.entries ++ [(name, i)])

theorem find?_replace (name other : String) (i : Item) (es : List (String × Item)) :
    (es.map fun e => if e.1 == name then (name, i) else e).find? (·.1 == other) =
      if other = name then (es.find? (·.1 == other)).map fun _ => (name, i)
      else es.find? (·.1 == other) := by
  induction es with
  | nil => simp
  | cons e rest ih =>
    by_cases he : e.1 = name
    · by_cases ho : other = name
      · simp [he, ho]
      · have hn : ¬ name = other := fun h => ho h.symm
        simpa [he, ho, hn] using ih
    · by_cases ho : e.1 = other
      · have hn : ¬ other = name := fun h => he (ho.trans h)
        simp [ho, hn]
      · simpa [he, ho] using ih

/-- A name that was put stands for what it was put for; all others keep their meaning. -/
theorem get?_put (t : Table) (name other : String) (i : Item) :
    (t.put name i).get? other = if other = name then some i else t.get? other := by
  obtain ⟨o, es⟩ := t
  by_cases h : es.any (·.1 == name)
  · simp only [put, entries, h, if_true, get?, find?_replace]
    by_cases ho : other = name
    · subst ho
      obtain ⟨e, he⟩ := Option.isSome_iff_exists.1 (List.find?_isSome.2 (List.any_eq_true.1 h))
      simp [he]
    · simp [ho]
  · have absent : es.find? (·.1 == name) = none := by
      cases found : es.find? (·.1 == name) with
      | none => rfl
      | some e => exact absurd (List.any_eq_true.2 ⟨e, List.mem_of_find?_eq_some found,
          List.find?_some found⟩) h
    rw [put, entries, if_neg h]
    by_cases ho : other = name
    · subst ho
      simp [get?, entries, absent]
    · simp [get?, entries, ho, Ne.symm ho]

/-- Changes the table at the end of a path. Tables that are not there yet get the given origin;
a sequence of tables leads into its last one. Dotted keys do not lead into stated tables. -/
def update (o : Origin) (change : Table → Option Table) : List String → Table → Option Table
  | [], t => change t
  | name :: path, t =>
    match t.get? name with
    | none => do return t.put name (.table (← update o change path (mk o [])))
    | some (.value _) => none
    | some (.table inner) =>
      if o = .dotted ∧ inner.origin = .stated then none
      else do return t.put name (.table (← update o change path inner))
    | some (.tables last earlier) => do
      return t.put name (.tables (← update o change path last) earlier)

/-- Gives a new name a value. A table has either dotted entries or plain ones. -/
def add (k : Key) (v : Value) (t : Table) : Option Table :=
  t.update .dotted (fun t =>
    if (t.origin = .dotted ↔ k.path = []) ∨ (t.get? k.name).isSome then none
    else some (t.put k.name (.value v))) k.path

/-- States the table of a header, which is new or at most implied so far. -/
def state (k : Key) (t : Table) : Option Table :=
  t.update .implied (fun t =>
    match t.get? k.name with
    | none => some (t.put k.name (.table (mk .stated [])))
    | some (.table (mk .implied es)) => some (t.put k.name (.table (mk .stated es)))
    | some _ => none) k.path

/-- Starts the next table in a sequence of tables. -/
def extend (k : Key) (t : Table) : Option Table :=
  t.update .implied (fun t =>
    match t.get? k.name with
    | none => some (t.put k.name (.tables (mk .stated []) []))
    | some (.tables last earlier) =>
      some (t.put k.name (.tables (mk .stated []) (last :: earlier)))
    | some _ => none) k.path

end Table

/-! ## Finished tables -/

mutual

def Item.toValue : Item → Value
  | .value v => v
  | .table t => t.toValue
  | .tables last earlier => .sequence (Table.toValues earlier [last.toValue])

def Table.toValue : Table → Value
  | .mk _ es => .table (Table.finished es)

/-- The finished tables of a sequence whose last ones are given first. -/
def Table.toValues : List Table → List Value → List Value
  | [], vs => vs
  | t :: ts, vs => Table.toValues ts (t.toValue :: vs)

def Table.finished : List (String × Item) → List (String × Value)
  | [] => []
  | e :: es => Table.finishedEntry e :: Table.finished es

def Table.finishedEntry : String × Item → String × Value
  | (name, i) => (name, i.toValue)

end

end Lockstep.Toml
