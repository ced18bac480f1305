import PlainScript.Text

/-! Tables from texts to values. The entries stand in the byte order of their keys and no key stands
twice, so a table is listed the same way however it was filled. -/
namespace PlainScript

structure Table (α : Type) where
  entries : List (Text × α) := []
  deriving DecidableEq, Repr

namespace Table

variable {α β : Type}

def keys (t : Table α) : List Text := t.entries.map (·.1)

def size (t : Table α) : Nat := t.entries.length

def isEmpty (t : Table α) : Bool := t.entries.isEmpty

def findEntry (key : Text) : List (Text × α) → Option α
  | [] => none
  | (k, v) :: rest => if k = key then some v else findEntry key rest

def get? (t : Table α) (key : Text) : Option α := findEntry key t.entries

def contains (t : Table α) (key : Text) : Bool := (t.get? key).isSome

def insertEntry (key : Text) (value : α) : List (Text × α) → List (Text × α)
  | [] => [(key, value)]
  | (k, v) :: rest =>
    if k = key then (key, value) :: rest
    else if Text.le key k then (key, value) :: (k, v) :: rest
    else (k, v) :: insertEntry key value rest

/-- The table with a value under a key, in place of the one that was there. -/
def insert (t : Table α) (key : Text) (value : α) : Table α := ⟨insertEntry key value t.entries⟩

@[simp] theorem get?_empty (key : Text) : (({} : Table α)).get? key = none := rfl

theorem findEntry_insertEntry (key k : Text) (value : α) (entries : List (Text × α)) :
    findEntry k (insertEntry key value entries) =
      if key = k then some value else findEntry k entries := by
  induction entries with
  | nil => rfl
  | cons e rest ih => grind [insertEntry, findEntry]

@[simp] theorem get?_insert (t : Table α) (key k : Text) (value : α) :
    (t.insert key value).get? k = if key = k then some value else t.get? k :=
  findEntry_insertEntry key k value t.entries

/-- Changes the value under a key, which starts from `default`. -/
def update (t : Table α) (key : Text) (default : α) (change : α → α) : Table α :=
  t.insert key (change ((t.get? key).getD default))

/-- Inserts entries one after the other. -/
def insertAll (t : Table α) (entries : List (Text × α)) : Table α :=
  entries.foldl (fun t (key, value) => t.insert key value) t

/-- Every value changed, under its old key. -/
def map (f : Text → α → β) (t : Table α) : Table β :=
  ⟨t.entries.map fun (key, value) => (key, f key value)⟩

example : (({} : Table Nat).insert "b" 1 |>.insert "a" 2 |>.insert "b" 3).entries =
    [(("a" : Text), 2), (("b" : Text), 3)] := by decide

end Table

/-- A set of texts, listed in byte order. -/
abbrev TextSet := Table Unit

namespace TextSet

def add (s : TextSet) (t : Text) : TextSet := s.insert t ()

def ofList (ts : List Text) : TextSet := ts.foldl add {}

end TextSet

end PlainScript
