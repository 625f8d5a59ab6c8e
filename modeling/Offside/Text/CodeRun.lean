/-!
Runs of code points, the form in which the character classes of the Unicode character database are
tabled. A run takes every `stride`-th code point from `first` to `last`, so that the alternating
capital and small letters of many alphabets fill one entry. A table is sorted by its first entries
and a look-up stops at the first run that starts beyond the code point.
-/

namespace Offside.Text

set_option autoImplicit false

structure CodeRun where
  first : Nat
  last : Nat
  stride : Nat
deriving DecidableEq, Repr

namespace CodeRun

def contains (run : CodeRun) (code : Nat) : Bool :=
  run.first ≤ code && code ≤ run.last && (code - run.first) % run.stride == 0

def covers : List CodeRun → Nat → Bool
  | [], _ => false
  | run :: later, code =>
      if code < run.first then false else run.contains code || covers later code

theorem exists_of_covers {table : List CodeRun} {code : Nat}
    (covered : covers table code = true) : ∃ run ∈ table, run.contains code = true := by
  induction table with
  | nil => simp [covers] at covered
  | cons run later ih =>
      simp only [covers] at covered
      split at covered
      · contradiction
      · rcases Bool.or_eq_true _ _ ▸ covered with here | further
        · exact ⟨run, by simp, here⟩
        · obtain ⟨found, member, holds⟩ := ih further
          exact ⟨found, List.mem_cons_of_mem _ member, holds⟩

end CodeRun

end Offside.Text
