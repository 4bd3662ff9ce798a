import Ia32.Port.Bus
/-!
Routing of ports. Each call that gives ports to a device writes some slots of some tables over, whatever stood there. So a
slot names the device of the last call that gave it away for its direction and width, and no device before any call has.
-/
namespace Ia32

inductive PortDirection where
  | read
  | write
  deriving DecidableEq, Repr

def PortDirections.has (s : PortDirections) : PortDirection → Bool
  | .read => s.read
  | .write => s.write

/-- What a call gives to a device. -/
structure PortRange where
  start : UInt16
  length : Nat
  widths : PortWidths
  directions : PortDirections

/-- The range has a port, counted on from 0xFFFF to 0, that shares its slot with a given one. -/
def PortRange.Meets (r : PortRange) (port : UInt16) : Prop :=
  ∃ i < r.length, (r.start + UInt16.ofNat i).toNat % portSlots = port.toNat % portSlots

/-- The range takes accesses to a port in a direction and at a width. -/
def PortRange.Takes (r : PortRange) (direction : PortDirection) (w : Width) (port : UInt16) : Prop :=
  r.Meets port ∧ r.widths.has w ∧ r.directions.has direction

instance (r : PortRange) (port : UInt16) : Decidable (r.Meets port) :=
  inferInstanceAs (Decidable (∃ i, i < r.length ∧ _))

instance (r : PortRange) (direction : PortDirection) (w : Width) (port : UInt16) :
    Decidable (r.Takes direction w port) := inferInstanceAs (Decidable (_ ∧ _))

/-- A device to which nothing has happened yet. -/
def Device.fresh (device : Device) : AttachedDevice := ⟨device, []⟩

/-- A call that routes ports: to a new device, or to one that has a number already. -/
inductive Wiring where
  | register (range : PortRange) (device : Device)
  | map (range : PortRange) (id : DeviceId)

namespace Wiring

def range : Wiring → PortRange
  | register range _ => range
  | map range _ => range

def device? : Wiring → Option Device
  | register _ device => some device
  | map _ _ => none

/-- The devices that calls put on a new bus. Their places are their numbers. -/
def devices (calls : List Wiring) : List Device := calls.filterMap device?

/-- Number of the device that a call routes to, after the calls before it. -/
def target (before : List Wiring) : Wiring → DeviceId
  | register _ _ => (devices before).length
  | map _ id => id

/-- The device that a call routes to, after the calls before it, if there is one of that number. -/
def owner (before : List Wiring) : Wiring → Option Device
  | register _ device => some device
  | map _ id => (devices before)[id]?

/-- Each call finds its device among those of the calls before it, or brings it along. -/
def Issued (calls : List Wiring) : Prop := ∀ i < calls.length, (calls[i]?.bind (·.owner (calls.take i))).isSome

instance (calls : List Wiring) : Decidable (Issued calls) := inferInstanceAs (Decidable (∀ i < _, _))

theorem devices_append (before after : List Wiring) : devices (before ++ after) = devices before ++ devices after :=
  List.filterMap_append

/-- The device of a call keeps its number when later calls put more devices on the bus. -/
theorem getElem?_devices {before after : List Wiring} {call : Wiring} {device : Device}
    (owner : call.owner before = some device) : (devices (before ++ call :: after))[call.target before]? = some device := by
  rw [devices_append]
  cases call with
  | register range device =>
    cases owner
    rw [target, List.getElem?_append_right (Nat.le_refl _), Nat.sub_self]
    rfl
  | map range id =>
    rw [target, List.getElem?_append_left (List.getElem?_eq_some_iff.mp owner).1]
    exact owner

theorem Issued.owner {before after : List Wiring} {call : Wiring} (issued : Issued (before ++ call :: after)) :
    ∃ device, call.owner before = some device := by
  have found := issued before.length (by rw [List.length_append, List.length_cons]; omega)
  rw [List.getElem?_append_right (Nat.le_refl _), Nat.sub_self, List.take_left] at found
  exact Option.isSome_iff_exists.mp found

end Wiring

theorem SlotTable.slot_eq_iff {p q : UInt16} : slot p = slot q ↔ p.toNat % portSlots = q.toNat % portSlots := Fin.ext_iff

theorem SlotTable.get_claim (table : SlotTable) (start port : UInt16) (id : DeviceId) (length : Nat) :
    ((∃ i < length, slot (start + UInt16.ofNat i) = slot port) →
      (table.claim start id length).get (slot port) = some id) ∧
    ((∀ i < length, slot (start + UInt16.ofNat i) ≠ slot port) →
      (table.claim start id length).get (slot port) = table.get (slot port)) := by
  induction length with
  | zero => exact ⟨fun ⟨_, inside, _⟩ => absurd inside (Nat.not_lt_zero _), fun _ => rfl⟩
  | succ n ih =>
    have write (s : Fin portSlots) :
        (table.claim start id (n + 1)).get s =
          if slot (start + UInt16.ofNat n) = s then some id else (table.claim start id n).get s := by
      simp only [Fin.ext_iff]
      exact Vector.getElem_set _ _
    rw [write]
    by_cases last : slot (start + UInt16.ofNat n) = slot port
    · rw [if_pos last]
      exact ⟨fun _ => rfl, fun miss => absurd last (miss n (Nat.lt_succ_self n))⟩
    · rw [if_neg last]
      constructor
      · rintro ⟨i, inside, hit⟩
        have earlier : i ≠ n := fun same => last (same ▸ hit)
        exact ih.1 ⟨i, by omega, hit⟩
      · exact fun miss => ih.2 fun i inside => miss i (Nat.lt_succ_of_lt inside)

theorem PortRoutes.table_claim (r : PortRoutes) (start : UInt16) (length : Nat) (widths : PortWidths) (id : DeviceId)
    (w : Width) : (r.claim start length widths id).table w =
      if widths.has w then (r.table w).claim start id length else r.table w := by
  cases w <;> rfl

namespace PortBus

def rewire (bus : PortBus) : Wiring → PortBus
  | .register r device => bus.register r.start r.length r.widths r.directions device
  | .map r id => bus.map r.start r.length r.widths r.directions id

def wired (calls : List Wiring) : PortBus := calls.foldl rewire {}

def routes (bus : PortBus) : PortDirection → PortRoutes
  | .read => bus.readers
  | .write => bus.writers

/-- What the slot holds that an access consults. -/
def slotOf (bus : PortBus) (direction : PortDirection) (w : Width) (port : UInt16) : Option DeviceId :=
  ((bus.routes direction).table w).get (SlotTable.slot port)

variable {bus : PortBus} {direction : PortDirection} {w : Width} {port : UInt16}

theorem routes_map (r : PortRange) (id : DeviceId) :
    (bus.map r.start r.length r.widths r.directions id).routes direction =
      if r.directions.has direction then (bus.routes direction).claim r.start r.length r.widths id
      else bus.routes direction := by
  cases direction <;> rfl

theorem slotOf_map (r : PortRange) (id : DeviceId) :
    (r.Takes direction w port →
      (bus.map r.start r.length r.widths r.directions id).slotOf direction w port = some id) ∧
    (¬r.Takes direction w port →
      (bus.map r.start r.length r.widths r.directions id).slotOf direction w port = bus.slotOf direction w port) := by
  obtain ⟨hit, miss⟩ := ((bus.routes direction).table w).get_claim r.start port id r.length
  simp only [ne_eq, SlotTable.slot_eq_iff] at hit miss
  unfold slotOf
  rw [routes_map]
  constructor
  · rintro ⟨meets, width, directed⟩
    rw [if_pos directed, PortRoutes.table_claim, if_pos width]
    exact hit meets
  · intro apart
    by_cases directed : r.directions.has direction
    · rw [if_pos directed, PortRoutes.table_claim]
      by_cases width : r.widths.has w
      · rw [if_pos width]
        exact miss fun i inside same => apart ⟨⟨i, inside, same⟩, width, directed⟩
      · rw [if_neg width]
    · rw [if_neg directed]

theorem slotOf_rewire_hit {call : Wiring} (takes : call.range.Takes direction w port) (before : List Wiring)
    (numbered : bus.devices.size = (Wiring.devices before).length) :
    (bus.rewire call).slotOf direction w port = some (call.target before) := by
  cases call with
  | register r device =>
    rw [Wiring.target, ← numbered]
    exact (slotOf_map r bus.devices.size).1 takes
  | map r id => exact (slotOf_map r id).1 takes

theorem slotOf_rewire_miss {call : Wiring} (apart : ¬call.range.Takes direction w port) :
    (bus.rewire call).slotOf direction w port = bus.slotOf direction w port := by
  cases call with
  | register r device => exact (slotOf_map r bus.devices.size).2 apart
  | map r id => exact (slotOf_map r id).2 apart

theorem devices_rewire (call : Wiring) :
    (bus.rewire call).devices.toList = bus.devices.toList ++ call.device?.toList.map Device.fresh := by
  cases call with
  | register r device => exact Array.toList_push
  | map r id => exact (List.append_nil _).symm

theorem slotOf_foldl_miss {calls : List Wiring} (apart : ∀ call ∈ calls, ¬call.range.Takes direction w port) :
    (calls.foldl rewire bus).slotOf direction w port = bus.slotOf direction w port := by
  induction calls generalizing bus with
  | nil => rfl
  | cons call calls ih =>
    rw [List.foldl_cons, ih fun later mem => apart later (List.mem_cons_of_mem call mem),
      slotOf_rewire_miss (apart call List.mem_cons_self)]

theorem devices_foldl (calls : List Wiring) :
    (calls.foldl rewire bus).devices.toList =
      bus.devices.toList ++ (Wiring.devices calls).map Device.fresh := by
  induction calls generalizing bus with
  | nil => exact (List.append_nil _).symm
  | cons call calls ih =>
    rw [List.foldl_cons, ih, devices_rewire, List.append_assoc]
    cases call <;> rfl

theorem devices_wired (calls : List Wiring) :
    (wired calls).devices.toList = (Wiring.devices calls).map Device.fresh := devices_foldl calls

theorem size_wired (calls : List Wiring) : (wired calls).devices.size = (Wiring.devices calls).length := by
  rw [← Array.length_toList, devices_wired, List.length_map]

theorem claimant_routes (bus : PortBus) (direction : PortDirection) (w : Width) (port : UInt16) :
    bus.claimant (bus.routes direction) port w =
      (bus.slotOf direction w port).bind fun id => bus.devices[id]?.map (id, ·) := by
  have named : ((bus.routes direction).table w)[SlotTable.slot port] = bus.slotOf direction w port := rfl
  rw [claimant, named]
  cases bus.slotOf direction w port <;> rfl

theorem slotOf_new (direction : PortDirection) (w : Width) (port : UInt16) :
    ({} : PortBus).slotOf direction w port = none := by
  cases direction <;> cases w <;> exact Vector.getElem_replicate _

theorem slotOf_wired (before after : List Wiring) {call : Wiring} (takes : call.range.Takes direction w port)
    (last : ∀ later ∈ after, ¬later.range.Takes direction w port) :
    (wired (before ++ call :: after)).slotOf direction w port = some (call.target before) := by
  rw [wired, List.foldl_append, List.foldl_cons, slotOf_foldl_miss last]
  exact slotOf_rewire_hit takes before (size_wired before)

/-- A port goes to the device of the last call that takes it, in each direction and at each width on its own. -/
theorem routed_by_last (calls : List Wiring) (direction : PortDirection) (w : Width) (port : UInt16) :
    (∀ before call after, calls = before ++ call :: after → call.range.Takes direction w port →
      (∀ later ∈ after, ¬later.range.Takes direction w port) →
      (wired calls).slotOf direction w port = some (call.target before) ∧
      (Wiring.Issued calls → ∃ device, call.owner before = some device ∧
        (wired calls).claimant ((wired calls).routes direction) port w = some (call.target before, device.fresh))) ∧
    ((∀ call ∈ calls, ¬call.range.Takes direction w port) →
      (wired calls).slotOf direction w port = none ∧
      (wired calls).claimant ((wired calls).routes direction) port w = none) ∧
    ∀ (bus : PortBus) (call : Wiring), ¬call.range.Takes direction w port →
      (bus.rewire call).slotOf direction w port = bus.slotOf direction w port := by
  refine ⟨?_, fun apart => ?_, fun bus call apart => slotOf_rewire_miss apart⟩
  · rintro before call after rfl takes last
    have named := slotOf_wired before after takes last
    refine ⟨named, fun issued => ?_⟩
    obtain ⟨device, owner⟩ := issued.owner
    refine ⟨device, owner, ?_⟩
    rw [claimant_routes, named, Option.bind_some, ← Array.getElem?_toList, devices_wired, List.getElem?_map,
      Wiring.getElem?_devices owner]
    rfl
  · have empty : (wired calls).slotOf direction w port = none :=
      (slotOf_foldl_miss apart).trans (slotOf_new direction w port)
    exact ⟨empty, by rw [claimant_routes, empty, Option.bind_none]⟩

/-- A range that goes round from 0xFFFF to 0, one port of it taken over for writing, and a neighbour. -/
def overlapping : List Wiring :=
  [.register ⟨0xFFFF, 2, .all, .both⟩ (.constant 1), .register ⟨0x400, 1, .byteOnly, ⟨false, true⟩⟩ .latch,
    .map ⟨0x401, 1, .all, .both⟩ 0]

theorem routed_by_last_overlapping :
    (wired overlapping).claimant (wired overlapping).readers 0x800 .byte = some (0, (Device.constant 1).fresh) ∧
    (wired overlapping).claimant (wired overlapping).writers 0x800 .byte = some (1, Device.latch.fresh) ∧
    (wired overlapping).claimant (wired overlapping).readers 0x802 .byte = none := by
  have issued : Wiring.Issued overlapping := by decide
  obtain ⟨reading, -, -⟩ := routed_by_last overlapping .read .byte 0x800
  obtain ⟨writing, -, -⟩ := routed_by_last overlapping .write .byte 0x800
  obtain ⟨-, nothing, -⟩ := routed_by_last overlapping .read .byte 0x802
  obtain ⟨device, owner, reader⟩ := (reading [] _ _ rfl (by decide) (by decide)).2 issued
  obtain ⟨other, taker, writer⟩ := (writing [_] _ _ rfl (by decide) (by decide)).2 issued
  cases owner
  cases taker
  exact ⟨reader, writer, (nothing (by decide)).2⟩

end PortBus

end Ia32
