import Snbt.Kind.Basic

namespace Snbt

/-!
# Sets of kinds

A set of kinds is one word with a bit for every kind, so sets are equal exactly
when they have the same members.  Each operation is described by what it does to
membership.
-/

/-- A set of kinds, one bit for each. -/
structure KindSet where
  bits : BitVec 21
  deriving DecidableEq, Repr

namespace KindSet

/-- Whether a kind is a member. -/
def contains (set : KindSet) (kind : Kind) : Bool :=
  set.bits.getLsbD kind.ordinal

/-- No kind. -/
def empty : KindSet :=
  ⟨0⟩

/-- Every kind. -/
def full : KindSet :=
  ⟨BitVec.allOnes 21⟩

/-- Add a kind. -/
def insert (set : KindSet) (kind : Kind) : KindSet :=
  ⟨set.bits ||| BitVec.twoPow 21 kind.ordinal⟩

/-- Take a kind out. -/
def erase (set : KindSet) (kind : Kind) : KindSet :=
  ⟨set.bits &&& ~~~(BitVec.twoPow 21 kind.ordinal)⟩

/-- Add each of the kinds. -/
def insertAll (set : KindSet) (kinds : List Kind) : KindSet :=
  kinds.foldl insert set

/-- Take each of the kinds out. -/
def eraseAll (set : KindSet) (kinds : List Kind) : KindSet :=
  kinds.foldl erase set

/-- The set of the kinds listed. -/
def ofList (kinds : List Kind) : KindSet :=
  empty.insertAll kinds

/-- The members in the order of priority. -/
def members (set : KindSet) : List Kind :=
  Kind.all.filter set.contains

/-- Whether no kind is a member. -/
def isEmpty (set : KindSet) : Bool :=
  set = empty

/-- The members in braces, for diagnostics. -/
def text (set : KindSet) : String :=
  "\x7b" ++ ", ".intercalate (set.members.map Kind.word) ++ "\x7d"

@[simp] theorem contains_empty
    (kind : Kind) :
    empty.contains kind = false := by
  simp [empty, contains]

@[simp] theorem contains_full
    (kind : Kind) :
    full.contains kind = true := by
  cases kind <;> rfl

@[simp] theorem contains_insert
    (set : KindSet)
    (added kind : Kind) :
    (set.insert added).contains kind = (set.contains kind || added = kind) := by
  have same : kind.ordinal = added.ordinal ↔ added = kind :=
    ⟨fun equal => (Kind.ordinal_inj equal).symm, fun equal => equal ▸ rfl⟩
  simp [insert, contains, kind.ordinal_lt, same]

@[simp] theorem contains_erase
    (set : KindSet)
    (removed kind : Kind) :
    (set.erase removed).contains kind =
      (set.contains kind && removed ≠ kind) := by
  have same : kind.ordinal = removed.ordinal ↔ removed = kind :=
    ⟨fun equal => (Kind.ordinal_inj equal).symm, fun equal => equal ▸ rfl⟩
  simp [erase, contains, kind.ordinal_lt, same]

/-- Sets with the same members are equal. -/
@[ext] theorem ext_contains
    {first second : KindSet}
    (same : ∀ kind, first.contains kind = second.contains kind) :
    first = second := by
  obtain ⟨firstBits⟩ := first
  obtain ⟨secondBits⟩ := second
  congr 1
  apply BitVec.eq_of_getLsbD_eq
  intro index bound
  have listed : ∀ place < 21, ∃ kind ∈ Kind.all, kind.ordinal = place := by
    decide
  obtain ⟨kind, _, place⟩ := listed index bound
  have := same kind
  simp only [contains, place] at this
  exact this

end KindSet

end Snbt
