import Ia32.LittleEndian
/-!
What CPUID reports.
-/
namespace Ia32

structure CpuidPolicy where
  vendor : Vector UInt8 12
  family : UInt8
  model : UInt8
  stepping : UInt8
  featuresEdx : UInt32
  featuresEcx : UInt32
  deriving DecidableEq, Repr

namespace CpuidPolicy

/-- Feature bit: 4 MiB pages. -/
def featurePse : UInt32 := 0x008
/-- Feature bit: time-stamp counter. -/
def featureTsc : UInt32 := 0x010
/-- Feature bit: CMPXCHG8B. -/
def featureCx8 : UInt32 := 0x100

/-- `GenuineIntel` in ASCII. -/
def genuineIntel : Vector UInt8 12 := #v[71, 101, 110, 117, 105, 110, 101, 73, 110, 116, 101, 108]

/-- A part without floating point that has the features above. -/
def standard : CpuidPolicy :=
  { vendor := genuineIntel, family := 5, model := 4, stepping := 3
    featuresEdx := featureTsc ||| featurePse ||| featureCx8, featuresEcx := 0 }

instance : Inhabited CpuidPolicy := ⟨standard⟩

/-- EAX of leaf 1: four bits each of stepping, model and family. -/
def signature (p : CpuidPolicy) : UInt32 :=
  (p.stepping &&& 0xF).toUInt32 ||| ((p.model &&& 0xF).toUInt32 <<< 4) ||| ((p.family &&& 0xF).toUInt32 <<< 8)

/-- EAX, EBX, ECX and EDX for a leaf. -/
def leaf (p : CpuidPolicy) (n : UInt32) : UInt32 × UInt32 × UInt32 × UInt32 :=
  if n = 0 then
    (1, le32 p.vendor[0] p.vendor[1] p.vendor[2] p.vendor[3],
      le32 p.vendor[8] p.vendor[9] p.vendor[10] p.vendor[11], le32 p.vendor[4] p.vendor[5] p.vendor[6] p.vendor[7])
  else if n = 1 then (p.signature, 0, p.featuresEcx, p.featuresEdx)
  else (0, 0, 0, 0)

end CpuidPolicy

end Ia32
