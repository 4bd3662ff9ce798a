/-!
Numbers of two and of three bits, which instruction bytes hold and which count registers.
-/
namespace Ia32

instance fourNumbers : @NeZero Nat Zero.ofOfNat0 4 := ⟨by decide⟩

instance eightNumbers : @NeZero Nat Zero.ofOfNat0 8 := ⟨by decide⟩

def lowTwo (b : UInt8) : Fin 4 := Fin.ofNat 4 b.toNat

def lowThree (b : UInt8) : Fin 8 := Fin.ofNat 8 b.toNat

end Ia32
