/-!
Powers of two and ten, and the integers of a width in bits.
-/

namespace Sitewright

def twoTo (exponent : Nat) : Nat := Nat.pow 2 exponent

def tenTo (exponent : Nat) : Nat := Nat.pow 10 exponent

theorem twoTo_pos (exponent : Nat) : 0 < twoTo exponent := Nat.pow_pos (by decide)

theorem tenTo_pos (exponent : Nat) : 0 < tenTo exponent := Nat.pow_pos (by decide)

def isWithin (low high value : Int) : Bool := decide (low ≤ value) && decide (value < high)

def isSigned (bits : Nat) (value : Int) : Bool :=
  isWithin (-Int.ofNat (twoTo (bits - 1))) (Int.ofNat (twoTo (bits - 1))) value

def hasBits (bits : Nat) (value : Int) : Bool :=
  isWithin (-Int.ofNat (twoTo (bits - 1))) (Int.ofNat (twoTo bits)) value

def isUnsigned (bits : Nat) (value : Int) : Bool := isWithin 0 (Int.ofNat (twoTo bits)) value

theorem hasBits_of_isUnsigned {bits : Nat} {value : Int} (h : isUnsigned bits value) :
    hasBits bits value := by
  have := twoTo_pos (bits - 1)
  simp only [isUnsigned, hasBits, isWithin, Bool.and_eq_true, decide_eq_true_eq, Int.ofNat_eq_natCast] at *
  omega

end Sitewright
