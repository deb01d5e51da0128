/-! A dictionary: values under keys, each key at most once. -/

namespace GrammarCheck

/-- Entries under pairwise different keys. -/
structure Dictionary (κ α : Type) where
  entries : List (κ × α)
  keys_nodup : (entries.map Prod.fst).Nodup

namespace Dictionary

variable {κ α : Type} [DecidableEq κ]

def empty : Dictionary κ α := ⟨[], List.nodup_nil⟩

instance : Inhabited (Dictionary κ α) := ⟨empty⟩

/-- The value under a key. Keys are compared whole. -/
def get? (dictionary : Dictionary κ α) (key : κ) : Option α := dictionary.entries.lookup key

def size (dictionary : Dictionary κ α) : Nat := dictionary.entries.length

/-- The entries with the value under a key exchanged, where the key has one. -/
def replaced (key : κ) (value : α) (entries : List (κ × α)) : List (κ × α) :=
  entries.map fun entry => if entry.1 = key then (key, value) else entry

theorem map_fst_replaced (key : κ) (value : α) (entries : List (κ × α)) :
    (replaced key value entries).map Prod.fst = entries.map Prod.fst := by
  induction entries with
  | nil => rfl
  | cons entry entries ih =>
      simp only [replaced, List.map_cons] at ih ⊢
      rw [ih]
      split <;> simp_all

/-- Puts a value under a key. Also gives the value it replaced, if there was one. -/
def insert (dictionary : Dictionary κ α) (key : κ) (value : α) : Option α × Dictionary κ α :=
  if h : key ∈ dictionary.entries.map Prod.fst then
    (dictionary.get? key, ⟨replaced key value dictionary.entries, by
      rw [map_fst_replaced]; exact dictionary.keys_nodup⟩)
  else
    (none, ⟨(key, value) :: dictionary.entries, by
      rw [List.map_cons]; exact List.nodup_cons.2 ⟨h, dictionary.keys_nodup⟩⟩)

end Dictionary

end GrammarCheck
