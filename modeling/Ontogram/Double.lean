/-
Binary floating-point numbers with 53 significant bits, and their shortest decimal text.

A finite number is a sign and a `Magnitude`, a whole number of units of `2^-1074`, so that reading and
writing decimals is exact arithmetic on natural numbers:

* `Magnitude.nearest?` — the magnitude nearest to a quotient of units, a tie going to the even
  significand;
* `Double.ofDecimal` — the number that a decimal denotes;
* `Magnitude.shortest` — the decimal with the fewest digits that denotes the number, of two such the
  nearer; `readsBack_shortest_of_search` says that the search returns nothing else;
* `Double.text` — how such a decimal is laid out.
-/
import Ontogram.Text.Basic
namespace Ontogram

/-- A decimal, `digits · 10^exponent`. -/
structure Decimal where
  digits : Nat
  exponent : Int
deriving DecidableEq

/-- `significand · 2^scale` units of `2^-1074`. The bounds leave one such pair for each number. -/
structure Magnitude where
  significand : Nat
  scale : Nat
  significand_lt : significand < Nat.pow 2 53
  scale_le : scale ≤ 2045
  normal : scale = 0 ∨ Nat.pow 2 52 ≤ significand
deriving DecidableEq

inductive Double where
  | notANumber
  | infinite (negative : Bool)
  | finite (negative : Bool) (size : Magnitude)
deriving DecidableEq

/-- The quotient rounded to the nearest whole number, a half going to the even neighbour. -/
def halfEven (num den : Nat) : Nat :=
  let q := num / den
  let r := num % den
  if 2 * r < den then q else if den < 2 * r then q + 1 else q + q % 2

namespace Magnitude

def zero : Magnitude := ⟨0, 0, by decide, by decide, Or.inl rfl⟩

/-- The value in units of `2^-1074`. -/
def units (x : Magnitude) : Nat := x.significand * Nat.pow 2 x.scale

/-- The magnitude nearest to `num / den` units; `none` beyond the largest one. -/
def nearest? (num den : Nat) : Option Magnitude :=
  let scale := (num / den).log2 - 52
  let rounded := halfEven num (den * Nat.pow 2 scale)
  let (significand, scale) :=
    if rounded < Nat.pow 2 53 then (rounded, scale) else (Nat.pow 2 52, scale + 1)
  if h : significand < Nat.pow 2 53 ∧ scale ≤ 2045 ∧ (scale = 0 ∨ Nat.pow 2 52 ≤ significand) then
    some ⟨significand, scale, h.1, h.2.1, h.2.2⟩
  else none

/-- Count of the decimal digits of a number. -/
def digitCount (n : Nat) : Nat := (Nat.toDigits 10 n).length

/-- The magnitude a decimal denotes. A decimal from `10^310` on is beyond the largest magnitude and
one below `10^-330` is nearest to zero, so neither is computed. -/
def ofDecimal? (d : Decimal) : Option Magnitude :=
  if d.digits = 0 then some zero
  else
    let position := d.exponent + digitCount d.digits
    if 310 < position then none
    else if position < -330 then some zero
    else
      match d.exponent with
      | .ofNat e => nearest? (d.digits * Nat.pow 10 e * Nat.pow 2 1074) 1
      | .negSucc e => nearest? (d.digits * Nat.pow 2 1074) (Nat.pow 10 (e + 1))

def readsBack (x : Magnitude) (d : Decimal) : Bool := ofDecimal? d = some x

/-- The exact value of `x` is this many units of `10^-1074`. -/
def exactDigits (x : Magnitude) : Nat := x.units * Nat.pow 5 1074

/-- Of the two neighbours of `x` with `count` leading digits, the nearer one that reads back; of two
equally near ones the even. -/
def neighbour? (x : Magnitude) (exact length count : Nat) : Option Decimal :=
  let grid := Nat.pow 10 (length - count)
  let low := exact / grid
  let exponent : Int := (length - count : Nat) - (1074 : Int)
  let below : Decimal := ⟨low, exponent⟩
  let above : Decimal := ⟨low + 1, exponent⟩
  let rest := exact % grid
  if x.readsBack below then
    if x.readsBack above ∧ (grid < 2 * rest ∨ (2 * rest = grid ∧ low % 2 = 1)) then some above
    else some below
  else if x.readsBack above then some above
  else none

/-- Drop up to `fuel` trailing zeros of the digits into the exponent. -/
def stripZeros : Nat → Decimal → Decimal
  | 0, d => d
  | fuel + 1, d =>
    if d.digits % 10 = 0 ∧ d.digits ≠ 0 then stripZeros fuel ⟨d.digits / 10, d.exponent + 1⟩ else d

/-- The decimal with the fewest digits that denotes `x`. Seventeen digits are always enough; the exact
value stands in should the search ever end without a hit. -/
def shortest (x : Magnitude) : Decimal :=
  let exact := x.exactDigits
  let length := digitCount exact
  let found := (List.range 17).findSome? fun n => x.neighbour? exact length (n + 1)
  let d := found.getD ⟨exact, -1074⟩
  stripZeros (digitCount d.digits) d

theorem readsBack_of_neighbour {x : Magnitude} {exact length count : Nat} {d : Decimal}
    (h : x.neighbour? exact length count = some d) : x.readsBack d = true := by
  unfold neighbour? at h
  simp only at h
  split at h
  · split at h
    · rename_i h1 h2
      cases h; exact h2.1
    · rename_i h1 _
      cases h; exact h1
  · split at h
    · rename_i h1
      cases h; exact h1
    · cases h

/-- Whatever count of digits the search stops at, what it found denotes `x`. -/
theorem readsBack_shortest_of_search {x : Magnitude} {counts : List Nat} {exact length : Nat}
    {d : Decimal} (h : counts.findSome? (fun n => x.neighbour? exact length (n + 1)) = some d) :
    x.readsBack d = true := by
  obtain ⟨n, _, hn⟩ := List.exists_of_findSome?_eq_some h
  exact readsBack_of_neighbour hn

end Magnitude

namespace Double

def ofDecimal (negative : Bool) (d : Decimal) : Double :=
  match Magnitude.ofDecimal? d with
  | some size => .finite negative size
  | none => .infinite negative

def isFinite : Double → Bool
  | .finite _ _ => true
  | _ => false

/-- Is the absolute value below the whole number `bound`? Never so for what is not a number. -/
def absBelow (bound : Nat) : Double → Bool
  | .finite _ size => size.units < bound * Nat.pow 2 1074
  | _ => false

/-- How the numbers that have no digits are written. -/
structure SpecialNames where
  notANumber : List CodePoint
  infinity : List CodePoint

/-- Digits `ds` with the point after `point` of them: positionally for a leading digit from `10^-4`
to `10^15`, otherwise with a signed exponent of at least two digits. -/
def layout (ds : List CodePoint) (point : Int) : List CodePoint :=
  if -4 < point ∧ point ≤ 16 then
    if point ≤ 0 then .char '0' :: .char '.' :: (List.replicate (-point).toNat (.char '0') ++ ds)
    else if ds.length ≤ point.toNat then
      ds ++ List.replicate (point.toNat - ds.length) (.char '0') ++ [.char '.', .char '0']
    else ds.take point.toNat ++ .char '.' :: ds.drop point.toNat
  else
    let power := (point - 1).natAbs
    let powerDigits := Text.decimalDigits power
    let sign : CodePoint := if point - 1 < 0 then '-' else '+'
    let fraction := match ds.drop 1 with
      | [] => []
      | rest => .char '.' :: rest
    ds.take 1 ++ fraction ++ .char 'e' :: sign :: (List.replicate (2 - powerDigits.length) (.char '0') ++ powerDigits)

/-- The text of a number: the fewest digits that denote it, laid out by `layout`. -/
def text (names : SpecialNames) : Double → List CodePoint
  | .notANumber => names.notANumber
  | .infinite negative => (if negative then [.char '-'] else []) ++ names.infinity
  | .finite negative size =>
    let digits :=
      if size.significand = 0 then [.char '0', .char '.', .char '0']
      else
        let d := size.shortest
        let ds := Text.decimalDigits d.digits
        layout ds (d.exponent + ds.length)
    (if negative then [.char '-'] else []) ++ digits

end Double

end Ontogram
