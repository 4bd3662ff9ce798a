import Ia32.Port.Bus
import Ia32.Proofs.Registers
import Mathlib.Data.List.Nodup
/-!
Byte lanes of a port access. Each byte of an access belongs to a port of its own, counted on from 0xFFFF to 0. A device
that has a port at the width of the access is called once for all of it. Where there is none the access falls into halves,
and each half is called for by itself. So every lane is served once, by the widest claim that it has, or by nobody.
-/
namespace Ia32

/-- A call of a device: what it answered, cut to the width, or what it was given. -/
structure PortCall where
  id : DeviceId
  port : UInt16
  width : Width
  value : UInt32
  deriving DecidableEq, Repr

/-- Ports in a row. After 0xFFFF comes 0. -/
def portsFrom (port : UInt16) (n : Nat) : List UInt16 := (List.range n).map fun i => port + UInt16.ofNat i

namespace PortCall

def ports (c : PortCall) : List UInt16 := portsFrom c.port c.width.bytes.toNat

def route (c : PortCall) : DeviceId × UInt16 × Width := (c.id, c.port, c.width)

/-- The byte that a call carries for one of its ports. -/
def byteAt (c : PortCall) (p : UInt16) : UInt8 := byteOf c.value (p - c.port).toUInt32

/-- The call that carries the byte of a port. -/
def at? (calls : List PortCall) (p : UInt16) : Option PortCall := calls.find? fun c => p ∈ c.ports

end PortCall

namespace PortBus

/-- The claim of a port at a width, if a device on the bus has it. -/
def claim (bus : PortBus) (routes : PortRoutes) (port : UInt16) (w : Width) : Option (DeviceId × UInt16 × Width) :=
  (bus.claimant routes port w).map fun (id, _) => (id, port, w)

/-- The claim that serves lane `i` of an access: that of the accessed port, else that of its half of a dword, else that of
its own port. -/
def server (bus : PortBus) (routes : PortRoutes) (port : UInt16) (w : Width) (i : Nat) :
    Option (DeviceId × UInt16 × Width) :=
  let half := bus.claim routes (port + UInt16.ofNat (i / 2 * 2)) .word
  let own := bus.claim routes (port + UInt16.ofNat i) .byte
  match w with
  | .byte => own
  | .word => (bus.claim routes port .word).or own
  | .dword => (bus.claim routes port .dword).or (half.or own)

/-- The calls carry ports of the access in their order, none twice, and carry each for the claim that serves its lane. -/
structure Serves (bus : PortBus) (routes : PortRoutes) (port : UInt16) (w : Width) (calls : List PortCall) : Prop where
  ports : (calls.flatMap PortCall.ports).Sublist (portsFrom port w.bytes.toNat)
  lanes : ∀ i < w.bytes.toNat,
    (PortCall.at? calls (port + UInt16.ofNat i)).map PortCall.route = bus.server routes port w i

/-- Devices answer one after another, each in the state in which the calls before have left it. -/
inductive Reads : PortBus → List PortCall → PortBus → Prop
  | none (bus : PortBus) : Reads bus [] bus
  | call {bus later : PortBus} {c : PortCall} {calls : List PortCall} {d : AttachedDevice}
      (attached : bus.devices[c.id]? = some d)
      (answered : c.value = d.device.answer d.history c.port c.width &&& c.width.mask)
      (rest : Reads (bus.note c.id (.read c.port c.width)) calls later) : Reads bus (c :: calls) later

/-- Hands a device what a call carries. -/
def give (bus : PortBus) (c : PortCall) : PortBus := bus.note c.id (.write c.port c.width c.value)

/-- A read of `v` was put together from answers: the byte of each lane is the one that its call carries, and all ones where
there is no call. -/
structure Answered (bus : PortBus) (port : UInt16) (w : Width) (calls : List PortCall) (v : UInt32) (later : PortBus) :
    Prop where
  reads : bus.Reads calls later
  serves : bus.Serves bus.readers port w calls
  cut : v &&& w.mask = v
  value : ∀ i < w.bytes.toNat, byteOf v (UInt32.ofNat i) =
    ((PortCall.at? calls (port + UInt16.ofNat i)).map (·.byteAt (port + UInt16.ofNat i))).getD 0xFF

/-- A write of `v` was taken apart: each call carries the bytes of its lanes, and nothing above its width. -/
structure Given (bus : PortBus) (port : UInt16) (w : Width) (v : UInt32) (calls : List PortCall) (later : PortBus) :
    Prop where
  gives : later = calls.foldl give bus
  serves : bus.Serves bus.writers port w calls
  cut : ∀ c ∈ calls, c.value &&& c.width.mask = c.value
  value : ∀ i < w.bytes.toNat, ∀ c ∈ calls, port + UInt16.ofNat i ∈ c.ports →
    c.byteAt (port + UInt16.ofNat i) = byteOf v (UInt32.ofNat i)

end PortBus

/-- The width of one half. -/
def Width.half? : Width → Option Width
  | byte => none
  | word => some byte
  | dword => some word

section Ports

variable {port p : UInt16} {n i j : Nat}

theorem mem_portsFrom : p ∈ portsFrom port n ↔ ∃ i < n, port + UInt16.ofNat i = p := by
  simp only [portsFrom, List.mem_map, List.mem_range]

theorem add_ofNat_add (port : UInt16) (m n : Nat) :
    port + UInt16.ofNat (m + n) = port + UInt16.ofNat m + UInt16.ofNat n := by
  rw [UInt16.ofNat_add, UInt16.add_assoc]

theorem portsFrom_add (port : UInt16) (m n : Nat) :
    portsFrom port (m + n) = portsFrom port m ++ portsFrom (port + UInt16.ofNat m) n := by
  simp only [portsFrom, List.range_add, List.map_append, List.map_map, Function.comp_def, add_ofNat_add]

theorem ofNat_injective {m n : Nat} (first : m < 65536) (second : n < 65536)
    (same : port + UInt16.ofNat m = port + UInt16.ofNat n) : m = n := by
  have sum := congrArg (· - port) same
  simp only [UInt16.add_comm port, UInt16.add_sub_cancel] at sum
  have eq := congrArg UInt16.toNat sum
  rwa [UInt16.toNat_ofNat', UInt16.toNat_ofNat', Nat.mod_eq_of_lt first, Nat.mod_eq_of_lt second] at eq

theorem nodup_portsFrom (port : UInt16) (few : n ≤ 4) : (portsFrom port n).Nodup := by
  refine List.Nodup.map_on (fun i first j second same => ?_) List.nodup_range
  rw [List.mem_range] at first second
  exact ofNat_injective (by omega) (by omega) same

theorem add_apart (halved : n ≤ 2) (first : i < n) (second : j < n) :
    port + UInt16.ofNat i ≠ port + UInt16.ofNat n + UInt16.ofNat j := by
  intro same
  rw [← add_ofNat_add] at same
  have := ofNat_injective (by omega) (by omega) same
  omega

end Ports

namespace PortCall

variable {calls more : List PortCall} {p : UInt16}

theorem at?_eq_none (outside : p ∉ calls.flatMap ports) : at? calls p = none := by
  simp only [List.mem_flatMap, not_exists, not_and] at outside
  simpa [at?] using outside

theorem at?_append_left (outside : p ∉ more.flatMap ports) : at? (calls ++ more) p = at? calls p := by
  rw [at?, List.find?_append]
  exact (congrArg _ (at?_eq_none outside)).trans Option.or_none

theorem at?_append_right (outside : p ∉ calls.flatMap ports) : at? (calls ++ more) p = at? more p := by
  rw [at?, List.find?_append]
  exact (congrArg (Option.or · _) (at?_eq_none outside)).trans Option.none_or

end PortCall

namespace PortBus

variable {bus later : PortBus} {routes : PortRoutes} {port : UInt16} {w h : Width} {i j : Nat} {calls more : List PortCall}

theorem bytes_le_four (w : Width) : w.bytes.toNat ≤ 4 := by cases w <;> decide

theorem half_bytes (halved : w.half? = some h) :
    w.bytes.toNat = h.bytes.toNat + h.bytes.toNat ∧ h.bytes.toNat ≤ 2 ∧ h.bits.toNat = 8 * h.bytes.toNat := by
  cases w <;> cases halved <;> decide

theorem server_low (halved : w.half? = some h) (unclaimed : bus.claim routes port w = none) (inside : i < h.bytes.toNat) :
    bus.server routes port w i = bus.server routes port h i := by
  cases w with
  | byte => cases halved
  | word =>
    cases halved
    simp only [server, unclaimed, Option.none_or]
  | dword =>
    cases halved
    have low : i / 2 * 2 = 0 := by
      have : i < 2 := inside
      omega
    have start : port + UInt16.ofNat 0 = port := UInt16.add_zero port
    simp only [server, unclaimed, Option.none_or, low, start]

theorem server_high (halved : w.half? = some h) (unclaimed : bus.claim routes port w = none) (inside : j < h.bytes.toNat) :
    bus.server routes port w (h.bytes.toNat + j) = bus.server routes (port + UInt16.ofNat h.bytes.toNat) h j := by
  cases w with
  | byte => cases halved
  | word =>
    cases halved
    simp only [server, unclaimed, Option.none_or, add_ofNat_add]
  | dword =>
    cases halved
    have high : (Width.word.bytes.toNat + j) / 2 * 2 = Width.word.bytes.toNat := by
      have : j < 2 := inside
      have : Width.word.bytes.toNat = 2 := by decide
      omega
    simp only [server, unclaimed, Option.none_or, high, add_ofNat_add]

theorem Serves.outside (serves : bus.Serves routes port w calls) {p : UInt16} (outside : p ∉ portsFrom port w.bytes.toNat) :
    p ∉ calls.flatMap PortCall.ports := fun inside => outside (serves.ports.subset inside)

theorem Serves.nodup (serves : bus.Serves routes port w calls) : (calls.flatMap PortCall.ports).Nodup :=
  (nodup_portsFrom port (bytes_le_four w)).sublist serves.ports

theorem Serves.low_apart (high : bus.Serves routes (port + UInt16.ofNat h.bytes.toNat) h more)
    (halved : w.half? = some h) (inside : i < h.bytes.toNat) : port + UInt16.ofNat i ∉ more.flatMap PortCall.ports := by
  apply high.outside
  rw [mem_portsFrom]
  rintro ⟨j, within, same⟩
  exact add_apart (half_bytes halved).2.1 inside within same.symm

theorem Serves.high_apart (low : bus.Serves routes port h calls) (halved : w.half? = some h) (inside : j < h.bytes.toNat) :
    port + UInt16.ofNat (h.bytes.toNat + j) ∉ calls.flatMap PortCall.ports := by
  apply low.outside
  rw [mem_portsFrom, add_ofNat_add]
  rintro ⟨i, within, same⟩
  exact add_apart (half_bytes halved).2.1 within inside same

theorem Serves.join (halved : w.half? = some h) (unclaimed : bus.claim routes port w = none)
    (low : bus.Serves routes port h calls) (high : bus.Serves routes (port + UInt16.ofNat h.bytes.toNat) h more) :
    bus.Serves routes port w (calls ++ more) := by
  obtain ⟨double, -, -⟩ := half_bytes halved
  refine ⟨?_, fun i inside => ?_⟩
  · rw [List.flatMap_append, double, portsFrom_add]
    exact low.ports.append high.ports
  · by_cases first : i < h.bytes.toNat
    · rw [PortCall.at?_append_left (high.low_apart halved first), low.lanes i first, server_low halved unclaimed first]
    · obtain ⟨j, rfl⟩ := Nat.exists_eq_add_of_le (Nat.not_lt.mp first)
      have second : j < h.bytes.toNat := by omega
      rw [PortCall.at?_append_right (low.high_apart halved second), add_ofNat_add, high.lanes j second,
        server_high halved unclaimed second]

theorem Serves.whole {c : PortCall} (claimed : bus.claim routes port w = some c.route) (port_eq : c.port = port)
    (width_eq : c.width = w) : bus.Serves routes port w [c] := by
  subst port_eq width_eq
  refine ⟨?_, fun i inside => ?_⟩
  · rw [List.flatMap_singleton]
    exact List.Sublist.refl _
  · have here : c.port + UInt16.ofNat i ∈ c.ports := mem_portsFrom.mpr ⟨i, inside, rfl⟩
    have served : bus.server routes c.port c.width i = some c.route := by
      generalize width : c.width = w at claimed inside
      cases w with
      | byte =>
        obtain rfl : i = 0 := Nat.lt_one_iff.mp inside
        have start : c.port + UInt16.ofNat 0 = c.port := UInt16.add_zero _
        rw [server, start]
        exact claimed
      | word | dword => simp only [server, claimed, Option.some_or]
    rw [served, PortCall.at?, List.find?_singleton, if_pos (decide_eq_true here), Option.map_some]

theorem Serves.nobody (unclaimed : bus.claim routes port .byte = none) : bus.Serves routes port .byte [] := by
  refine ⟨List.nil_sublist _, fun i inside => ?_⟩
  obtain rfl : i = 0 := Nat.lt_one_iff.mp inside
  have start : port + UInt16.ofNat 0 = port := UInt16.add_zero _
  rw [server, start]
  exact unclaimed.symm

/-- Between two calls a device may change its answers, but nobody loses a claim. -/
structure SameClaims (bus later : PortBus) : Prop where
  readers : later.readers = bus.readers
  writers : later.writers = bus.writers
  claim : later.claim = bus.claim

theorem sameClaims_note (bus : PortBus) (id : DeviceId) (event : PortEvent) : SameClaims bus (bus.note id event) := by
  refine ⟨rfl, rfl, ?_⟩
  funext routes port w
  unfold claim claimant
  cases (routes.table w)[SlotTable.slot port] with
  | none => rfl
  | some other =>
    simp only [note, Array.getElem?_modify]
    split <;> cases bus.devices[other]? <;> rfl

theorem SameClaims.trans {middle : PortBus} (first : SameClaims bus middle) (second : SameClaims middle later) :
    SameClaims bus later :=
  ⟨second.readers.trans first.readers, second.writers.trans first.writers, second.claim.trans first.claim⟩

theorem SameClaims.server (same : SameClaims bus later) : later.server = bus.server := by
  funext routes port w i
  simp only [PortBus.server, same.claim]

theorem SameClaims.serves (same : SameClaims bus later) (serves : later.Serves routes port w calls) :
    bus.Serves routes port w calls := ⟨serves.ports, same.server ▸ serves.lanes⟩

theorem Reads.sameClaims (reads : bus.Reads calls later) : SameClaims bus later := by
  induction reads with
  | none bus => exact ⟨rfl, rfl, rfl⟩
  | call attached answered rest ih => exact (sameClaims_note _ _ _).trans ih

theorem Reads.append {middle : PortBus} (first : bus.Reads calls middle) (second : middle.Reads more later) :
    bus.Reads (calls ++ more) later := by
  induction first with
  | none bus => exact second
  | call attached answered rest ih => exact .call attached answered (ih second)

theorem sameClaims_give (bus : PortBus) (calls : List PortCall) : SameClaims bus (calls.foldl give bus) := by
  induction calls generalizing bus with
  | nil => exact ⟨rfl, rfl, rfl⟩
  | cons c calls ih => exact (sameClaims_note _ _ _).trans (ih _)

theorem claim_eq_none : bus.claim routes port w = none ↔ bus.claimant routes port w = none := Option.map_eq_none_iff

theorem attached_of_claimant {id : DeviceId} {d : AttachedDevice} (found : bus.claimant routes port w = some (id, d)) :
    bus.devices[id]? = some d := by
  unfold claimant at found
  cases named : (routes.table w)[SlotTable.slot port] with
  | none => simp [named] at found
  | some other =>
    rw [named] at found
    obtain ⟨d', attached, same⟩ := Option.map_eq_some_iff.mp found
    cases same
    exact attached

section Values

variable {v low high : UInt32}

theorem testBit_of_cut (cut : v &&& h.mask = v) {k : Nat} (above : h.bits.toNat ≤ k) : v.toNat.testBit k = false := by
  rw [← cut, Width.testBit_and_mask, decide_eq_false (Nat.not_lt.mpr above), Bool.false_and]

theorem byteOf_low (halved : w.half? = some h) (inside : i < h.bytes.toNat) :
    byteOf (low ||| (high <<< h.bits)) (UInt32.ofNat i) = byteOf low (UInt32.ofNat i) := by
  obtain ⟨-, few, bits⟩ := half_bytes halved
  refine byteOf_congr (by omega) (by omega) fun k within => ?_
  have below : ¬h.bits.toNat ≤ 8 * i + k := by omega
  rw [UInt32.toNat_or, Nat.testBit_or, testBit_shiftLeft high (by omega) (by omega)]
  simp [below]

theorem byteOf_high (halved : w.half? = some h) (cut : low &&& h.mask = low) (inside : j < h.bytes.toNat) :
    byteOf (low ||| (high <<< h.bits)) (UInt32.ofNat (h.bytes.toNat + j)) = byteOf high (UInt32.ofNat j) := by
  obtain ⟨-, few, bits⟩ := half_bytes halved
  refine byteOf_congr (by omega) (by omega) fun k within => ?_
  have above : h.bits.toNat ≤ 8 * (h.bytes.toNat + j) + k := by omega
  have place : 8 * (h.bytes.toNat + j) + k - h.bits.toNat = 8 * j + k := by omega
  rw [UInt32.toNat_or, Nat.testBit_or, testBit_of_cut cut above, testBit_shiftLeft high (by omega) (by omega), place]
  simp [above]

theorem cut_join (halved : w.half? = some h) (first : low &&& h.mask = low) (second : high &&& h.mask = high) :
    (low ||| (high <<< h.bits)) &&& w.mask = low ||| (high <<< h.bits) := by
  obtain ⟨double, few, bits⟩ := half_bytes halved
  have whole : w.bits.toNat = 8 * w.bytes.toNat := by cases w <;> decide
  refine testBit_ext fun i inside => ?_
  rw [Width.testBit_and_mask]
  by_cases within : i < w.bits.toNat
  · simp [within]
  · have beyond : (low ||| (high <<< h.bits)).toNat.testBit i = false := by
      rw [UInt32.toNat_or, Nat.testBit_or, testBit_of_cut first (by omega), testBit_shiftLeft high (by omega) inside,
        testBit_of_cut second (by omega)]
      simp
    rw [beyond, Bool.and_false]

theorem byteOf_and_mask (inside : i < w.bytes.toNat) :
    byteOf (v &&& w.mask) (UInt32.ofNat i) = byteOf v (UInt32.ofNat i) := by
  have whole : w.bits.toNat = 8 * w.bytes.toNat := by cases w <;> decide
  have few := bytes_le_four w
  refine byteOf_congr (by omega) (by omega) fun k within => ?_
  have covered : 8 * i + k < w.bits.toNat := by omega
  rw [Width.testBit_and_mask, decide_eq_true covered, Bool.true_and]

theorem byteOf_shiftRight (halved : w.half? = some h) (inside : j < h.bytes.toNat) :
    byteOf (v >>> h.bits) (UInt32.ofNat j) = byteOf v (UInt32.ofNat (h.bytes.toNat + j)) := by
  obtain ⟨-, few, bits⟩ := half_bytes halved
  refine byteOf_congr (by omega) (by omega) fun k within => ?_
  have place : h.bits.toNat + (8 * j + k) = 8 * (h.bytes.toNat + j) + k := by omega
  rw [testBit_shiftRight _ _ (by omega), place]

/-- A byte of a call is found by its distance from the first port. -/
theorem byteAt_add (c : PortCall) (inside : i < c.width.bytes.toNat) :
    c.byteAt (c.port + UInt16.ofNat i) = byteOf c.value (UInt32.ofNat i) := by
  have few := bytes_le_four c.width
  have distance : (c.port + UInt16.ofNat i - c.port).toUInt32 = UInt32.ofNat i := by
    rw [UInt16.add_comm, UInt16.add_sub_cancel, ← UInt32.toNat_inj, UInt16.toNat_toUInt32, UInt16.toNat_ofNat',
      UInt32.toNat_ofNat']
    omega
  rw [PortCall.byteAt, distance]

end Values

theorem Answered.whole {id : DeviceId} {d : AttachedDevice} (found : bus.claimant bus.readers port w = some (id, d)) :
    ∃ calls, bus.Answered port w calls (d.device.answer d.history port w &&& w.mask) (bus.note id (.read port w)) := by
  let c : PortCall := ⟨id, port, w, d.device.answer d.history port w &&& w.mask⟩
  have claimed : bus.claim bus.readers port w = some c.route := congrArg (Option.map _) found
  refine ⟨[c], .call (attached_of_claimant found) rfl (.none _), .whole claimed rfl rfl, ?_, fun i inside => ?_⟩
  · rw [UInt32.and_assoc, UInt32.and_self]
  · have here : port + UInt16.ofNat i ∈ c.ports := mem_portsFrom.mpr ⟨i, inside, rfl⟩
    have called : PortCall.at? [c] (port + UInt16.ofNat i) = some c := by
      rw [PortCall.at?, List.find?_singleton, if_pos (decide_eq_true here)]
    rw [called]
    exact (byteAt_add c inside).symm

theorem Answered.nobody (unclaimed : bus.claim bus.readers port .byte = none) : bus.Answered port .byte [] 0xFF bus := by
  refine ⟨.none bus, .nobody unclaimed, by decide, fun i inside => ?_⟩
  obtain rfl : i = 0 := Nat.lt_one_iff.mp inside
  rfl

theorem Answered.join {middle : PortBus} {next : UInt16} {low high : UInt32} (halved : w.half? = some h)
    (unclaimed : bus.claim bus.readers port w = none) (first : bus.Answered port h calls low middle)
    (second : middle.Answered next h more high later) (start : next = port + UInt16.ofNat h.bytes.toNat) :
    bus.Answered port w (calls ++ more) (low ||| (high <<< h.bits)) later := by
  subst start
  have same := first.reads.sameClaims
  have serves : bus.Serves bus.readers (port + UInt16.ofNat h.bytes.toNat) h more :=
    same.serves (same.readers ▸ second.serves)
  obtain ⟨double, -, -⟩ := half_bytes halved
  refine ⟨first.reads.append second.reads, first.serves.join halved unclaimed serves,
    cut_join halved first.cut second.cut, fun i inside => ?_⟩
  by_cases below : i < h.bytes.toNat
  · rw [byteOf_low halved below, PortCall.at?_append_left (serves.low_apart halved below), first.value i below]
  · obtain ⟨j, rfl⟩ := Nat.exists_eq_add_of_le (Nat.not_lt.mp below)
    have above : j < h.bytes.toNat := by omega
    rw [byteOf_high halved first.cut above, PortCall.at?_append_right (first.serves.high_apart halved above),
      add_ofNat_add, second.value j above]

theorem answered_readOr {otherwise : PortBus → UInt32 × PortBus}
    (apart : bus.claim bus.readers port w = none → ∃ calls, bus.Answered port w calls (otherwise bus).1 (otherwise bus).2) :
    ∃ calls, bus.Answered port w calls (bus.readOr port w otherwise).1 (bus.readOr port w otherwise).2 := by
  unfold readOr
  cases found : bus.claimant bus.readers port w with
  | none => exact apart (claim_eq_none.mpr found)
  | some claimant => exact Answered.whole found

theorem answered_read8 (bus : PortBus) (port : UInt16) :
    ∃ calls, bus.Answered port .byte calls (bus.read8 port).1 (bus.read8 port).2 :=
  answered_readOr fun unclaimed => ⟨[], .nobody unclaimed⟩

theorem answered_read16 (bus : PortBus) (port : UInt16) :
    ∃ calls, bus.Answered port .word calls (bus.read16 port).1 (bus.read16 port).2 := by
  refine answered_readOr fun unclaimed => ?_
  obtain ⟨calls, low⟩ := answered_read8 bus port
  obtain ⟨more, high⟩ := answered_read8 (bus.read8 port).2 (port + 1)
  have whole := low.join (w := .word) rfl unclaimed high rfl
  exact ⟨calls ++ more, whole⟩

theorem answered_read32 (bus : PortBus) (port : UInt16) :
    ∃ calls, bus.Answered port .dword calls (bus.read32 port).1 (bus.read32 port).2 := by
  refine answered_readOr fun unclaimed => ?_
  obtain ⟨calls, low⟩ := answered_read16 bus port
  obtain ⟨more, high⟩ := answered_read16 (bus.read16 port).2 (port + 2)
  have whole := low.join (w := .dword) rfl unclaimed high rfl
  exact ⟨calls ++ more, whole⟩

theorem Given.whole {id : DeviceId} {d : AttachedDevice} (found : bus.claimant bus.writers port w = some (id, d))
    (v : UInt32) : ∃ calls, bus.Given port w v calls (bus.note id (.write port w (v &&& w.mask))) := by
  let c : PortCall := ⟨id, port, w, v &&& w.mask⟩
  have claimed : bus.claim bus.writers port w = some c.route := congrArg (Option.map _) found
  refine ⟨[c], rfl, .whole claimed rfl rfl, fun c' called => ?_, fun i inside c' called _ => ?_⟩
  · obtain rfl := List.mem_singleton.mp called
    rw [UInt32.and_assoc, UInt32.and_self]
  · obtain rfl := List.mem_singleton.mp called
    exact (byteAt_add c inside).trans (byteOf_and_mask inside)

theorem Given.nobody (unclaimed : bus.claim bus.writers port .byte = none) (v : UInt32) :
    bus.Given port .byte v [] bus := ⟨rfl, .nobody unclaimed, nofun, nofun⟩

theorem Given.join {middle : PortBus} {next : UInt16} {v low high : UInt32} (halved : w.half? = some h)
    (unclaimed : bus.claim bus.writers port w = none) (first : bus.Given port h low calls middle)
    (second : middle.Given next h high more later) (start : next = port + UInt16.ofNat h.bytes.toNat)
    (lower : ∀ i < h.bytes.toNat, byteOf low (UInt32.ofNat i) = byteOf v (UInt32.ofNat i))
    (upper : ∀ j < h.bytes.toNat, byteOf high (UInt32.ofNat j) = byteOf v (UInt32.ofNat (h.bytes.toNat + j))) :
    bus.Given port w v (calls ++ more) later := by
  subst start
  have same : SameClaims bus middle := first.gives ▸ sameClaims_give bus calls
  have serves : bus.Serves bus.writers (port + UInt16.ofNat h.bytes.toNat) h more :=
    same.serves (same.writers ▸ second.serves)
  obtain ⟨double, -, -⟩ := half_bytes halved
  refine ⟨?_, first.serves.join halved unclaimed serves, fun c called => ?_, fun i inside c called carried => ?_⟩
  · rw [second.gives, first.gives, List.foldl_append]
  · exact (List.mem_append.mp called).elim (first.cut c) (second.cut c)
  · by_cases below : i < h.bytes.toNat
    · have called : c ∈ calls := (List.mem_append.mp called).resolve_right fun late =>
        serves.low_apart halved below (List.mem_flatMap.mpr ⟨c, late, carried⟩)
      rw [first.value i below c called carried, lower i below]
    · obtain ⟨j, rfl⟩ := Nat.exists_eq_add_of_le (Nat.not_lt.mp below)
      have above : j < h.bytes.toNat := by omega
      have called : c ∈ more := (List.mem_append.mp called).resolve_left fun early =>
        first.serves.high_apart halved above (List.mem_flatMap.mpr ⟨c, early, carried⟩)
      rw [add_ofNat_add] at carried ⊢
      rw [second.value j above c called carried, upper j above]

theorem given_writeOr {v : UInt32} {otherwise : PortBus → PortBus}
    (apart : bus.claim bus.writers port w = none → ∃ calls, bus.Given port w v calls (otherwise bus)) :
    ∃ calls, bus.Given port w v calls (bus.writeOr port w v otherwise) := by
  unfold writeOr
  cases found : bus.claimant bus.writers port w with
  | none => exact apart (claim_eq_none.mpr found)
  | some claimant => exact Given.whole found v

theorem given_write8 (bus : PortBus) (port : UInt16) (v : UInt32) :
    ∃ calls, bus.Given port .byte v calls (bus.write8 port v) :=
  given_writeOr fun unclaimed => ⟨[], .nobody unclaimed v⟩

theorem given_write16 (bus : PortBus) (port : UInt16) (v : UInt32) :
    ∃ calls, bus.Given port .word v calls (bus.write16 port v) := by
  refine given_writeOr fun unclaimed => ?_
  obtain ⟨calls, low⟩ := given_write8 bus port (v &&& 0xFF)
  obtain ⟨more, high⟩ := given_write8 (bus.write8 port (v &&& 0xFF)) (port + 1) ((v >>> 8) &&& 0xFF)
  have whole := low.join (w := .word) (v := v) rfl unclaimed high rfl (fun i inside => byteOf_and_mask (w := .byte) inside)
    fun j inside => (byteOf_and_mask (w := .byte) inside).trans (byteOf_shiftRight (w := .word) (h := .byte) rfl inside)
  exact ⟨calls ++ more, whole⟩

theorem given_write32 (bus : PortBus) (port : UInt16) (v : UInt32) :
    ∃ calls, bus.Given port .dword v calls (bus.write32 port v) := by
  refine given_writeOr fun unclaimed => ?_
  obtain ⟨calls, low⟩ := given_write16 bus port (v &&& 0xFFFF)
  obtain ⟨more, high⟩ := given_write16 (bus.write16 port (v &&& 0xFFFF)) (port + 2) (v >>> 16)
  have whole := low.join (w := .dword) (v := v) rfl unclaimed high rfl (fun i inside => byteOf_and_mask (w := .word) inside)
    fun j inside => byteOf_shiftRight (w := .dword) (h := .word) rfl inside
  exact ⟨calls ++ more, whole⟩

end PortBus

end Ia32
