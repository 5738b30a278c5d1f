/-
Order by insertion.

Where some things compare with nothing, no order suits every pair, and which one comes out depends on the
pairs that are looked at. Here the run at the start stays together, falling ones turned round, and each
further thing goes in at a place found by halving:

* `leadingRun` — the run at the start and what comes after it;
* `insertionPoint` — the place of a thing among things in order;
* `sortByInsertion` — all things in order;
* `perm_sortByInsertion` — nothing is lost and nothing added.
-/
namespace Ontogram

variable {α : Type}

/-- The things after `last`, up to the first that does not follow the one before it, and the rest. -/
def leadingRun (follows : α → α → Bool) (last : α) : List α → List α × List α
  | [] => ([], [])
  | x :: rest =>
    if follows last x then
      let (run, after) := leadingRun follows x rest
      (x :: run, after)
    else ([], x :: rest)

/-- Where to put a thing between places `low` and `high`: the middle one is looked at, and the thing goes
to the left of it if it is before it and to the right if not. -/
def insertionPoint (isBefore : α → α → Bool) (x : α) (xs : List α) (low high : Nat) : Nat :=
  if low < high then
    let middle := low + (high - low) / 2
    if (xs[middle]?).any (isBefore x) then insertionPoint isBefore x xs low middle
    else insertionPoint isBefore x xs (middle + 1) high
  else low
termination_by high - low
decreasing_by all_goals omega

def insertInOrder (isBefore : α → α → Bool) (xs : List α) (x : α) : List α :=
  let place := insertionPoint isBefore x xs 0 xs.length
  xs.take place ++ x :: xs.drop place

def sortByInsertion (isBefore : α → α → Bool) : List α → List α
  | x :: y :: rest =>
    let falls := isBefore y x
    let (run, after) := leadingRun (fun a b => isBefore b a == falls) x (y :: rest)
    let start := x :: run
    after.foldl (insertInOrder isBefore) (if falls then start.reverse else start)
  | xs => xs

theorem leadingRun_append (follows : α → α → Bool) (last : α) (xs : List α) :
    (leadingRun follows last xs).1 ++ (leadingRun follows last xs).2 = xs := by
  induction xs generalizing last with
  | nil => rfl
  | cons x rest ih =>
    by_cases h : follows last x = true
    · simp [leadingRun, h, ih x]
    · simp [leadingRun, h]

theorem perm_insertInOrder (isBefore : α → α → Bool) (xs : List α) (x : α) :
    (insertInOrder isBefore xs x).Perm (x :: xs) := by
  have h (place : Nat) :
      (xs.take place ++ x :: xs.drop place).Perm (x :: (xs.take place ++ xs.drop place)) :=
    List.perm_middle
  simpa [List.take_append_drop, insertInOrder] using h (insertionPoint isBefore x xs 0 xs.length)

theorem perm_foldl_insertInOrder (isBefore : α → α → Bool) (after xs : List α) :
    (after.foldl (insertInOrder isBefore) xs).Perm (xs ++ after) := by
  induction after generalizing xs with
  | nil => simp
  | cons x rest ih =>
    have h := (perm_insertInOrder isBefore xs x).append_right rest
    exact (ih (insertInOrder isBefore xs x)).trans (h.trans List.perm_middle.symm)

theorem perm_sortByInsertion (isBefore : α → α → Bool) (xs : List α) :
    (sortByInsertion isBefore xs).Perm xs := by
  match xs with
  | [] => exact List.Perm.refl _
  | [_] => exact List.Perm.refl _
  | x :: y :: rest =>
    simp only [sortByInsertion]
    have whole := leadingRun_append (fun a b => isBefore b a == isBefore y x) x (y :: rest)
    generalize leadingRun (fun a b => isBefore b a == isBefore y x) x (y :: rest) = r at whole ⊢
    obtain ⟨run, after⟩ := r
    refine (perm_foldl_insertInOrder isBefore after _).trans ?_
    rw [← whole, ← List.cons_append]
    split
    · exact (List.reverse_perm (x :: run)).append_right after
    · exact List.Perm.refl _

end Ontogram
