import Mathlib.Data.List.Basic
import Mathlib.Data.List.Induction
import Mathlib.Data.Nat.Notation
import Vr4300.Memory.Bus

/-!
# `Proofs.BusRouting` — which device answers an address

Adding devices keeps them in the order of their bases, and of equal bases in the order in which they were added. Where
several devices claim an address, the first of them should answer. But the device that answered last is asked first, and
it keeps an address that an earlier device claims too.

No request moves a device or its range, so the layout of a bus is fixed, and all that requests change is the position of
the recent device. It is the position of the first device, or of one that is the first to claim some address
(`Bus.Leads`): only such a device is ever found by the search. So a device answers an address after some requests just
when it claims it and leads somewhere (`Bus.exists_target?_iff`), and an address is always answered by the first device
that claims it just when no later device that leads elsewhere claims it too.

## Contents

* `Bus.ofDevices`, `BusRequest`, `Bus.afterRequests`, `Bus.target?`, `Bus.firstTarget?`, `Bus.Leads`;
* `Bus.sorted_ofDevices`, `Bus.filter_ofDevices`: the order of the devices;
* `Bus.layout_handle`, `Bus.recent_handle`, `Bus.records_request`: what a request changes;
* `Bus.recent_afterRequests`, `Bus.exists_target?_iff`: along requests;
* `routed_in_order_unless_led`, and `recent_device_answers`, where the order is broken.
-/

namespace Vr4300

/-! ## Requests -/

/-- What is asked of a bus. -/
inductive BusRequest where
  /-- A number is read. -/
  | read (w : Width) (address : UInt64)
  /-- A number is written. -/
  | write (w : Width) (address v : UInt64)

namespace BusRequest

/-- The address. -/
def address : BusRequest → UInt64
  | read _ address | write _ address _ => address

/-- It writes. -/
def isWrite : BusRequest → Bool
  | read .. => false
  | write .. => true

/-- The width. -/
def width : BusRequest → Width
  | read w _ | write w _ _ => w

end BusRequest

namespace Bus

/-- A bus with the devices of a list, added in the order of the list. -/
def ofDevices (ds : List Device) : Bus := ds.foldl add {}

/-- The bus behind a request. -/
def handle (b : Bus) : BusRequest → Bus
  | .read w address => (b.read w address).2
  | .write w address v => b.write w address v

/-- The bus behind requests. -/
def afterRequests (b : Bus) (rs : List BusRequest) : Bus := rs.foldl handle b

/-- The device at a position claims an address, which lies at an offset from its base. -/
def ClaimsAt (b : Bus) (address : UInt64) (i : ℕ) (offset : UInt64) : Prop :=
  ∃ d, b.devices[i]? = some d ∧ d.claims address = true ∧ offset = address - d.base

/-- The position of the device that an access reaches, and the offset there. -/
def target? (b : Bus) (address : UInt64) : Option (ℕ × UInt64) :=
  (b.route? address).bind fun i => b.devices[i]?.map fun d => (i, address - d.base)

/-- The first device that claims the address, and the offset there. -/
def firstTarget? (b : Bus) (address : UInt64) : Option (ℕ × UInt64) :=
  (b.devices.findIdx? (·.claims address)).bind fun i => b.devices[i]?.map fun d => (i, address - d.base)

/-- The device at a position is the first to claim some address. -/
def Leads (b : Bus) (i : ℕ) : Prop := ∃ address, b.devices.findIdx? (·.claims address) = some i

end Bus

/-! ## The order of the devices -/

namespace Bus

variable {ds : List Device} {b : Bus} {address : UInt64} {i : ℕ}

theorem perm_insertByBase (d : Device) (ds : List Device) : (insertByBase d ds).Perm (d :: ds) := by
  induction ds with
  | nil => exact .refl _
  | cons e rest ih =>
    unfold insertByBase
    split
    · exact (ih.cons e).trans (.swap d e rest)
    · exact .refl _

theorem sorted_insertByBase (d : Device) (h : ds.Pairwise (·.base ≤ ·.base)) :
    (insertByBase d ds).Pairwise (·.base ≤ ·.base) := by
  induction ds with
  | nil => exact List.pairwise_singleton _ _
  | cons e rest ih =>
    obtain ⟨hfirst, hrest⟩ := List.pairwise_cons.mp h
    unfold insertByBase
    split
    · rename_i hle
      refine List.pairwise_cons.mpr ⟨fun x hx => ?_, ih hrest⟩
      obtain rfl | hx := List.mem_cons.mp ((perm_insertByBase d rest).mem_iff.mp hx)
      · exact hle
      · exact hfirst x hx
    · rename_i hlt
      have hde : d.base ≤ e.base := UInt64.le_of_lt (UInt64.not_le.mp hlt)
      refine List.pairwise_cons.mpr ⟨fun x hx => ?_, h⟩
      obtain rfl | hx := List.mem_cons.mp hx
      · exact hde
      · exact UInt64.le_trans hde (hfirst x hx)

/-- A device is put behind the devices with its base. -/
theorem filter_insertByBase (d : Device) (h : ds.Pairwise (·.base ≤ ·.base)) (base : UInt64) :
    (insertByBase d ds).filter (·.base = base) = ds.filter (·.base = base) ++ [d].filter (·.base = base) := by
  induction ds with
  | nil => rfl
  | cons e rest ih =>
    obtain ⟨hfirst, hrest⟩ := List.pairwise_cons.mp h
    unfold insertByBase
    split
    · rw [List.filter_cons, List.filter_cons, ih hrest]
      split <;> rfl
    · rename_i hlt
      by_cases hd : d.base = base
      · -- all that follow have higher bases
        have hnone : (e :: rest).filter (·.base = base) = [] := by
          refine List.filter_eq_nil_iff.mpr fun x hx heq => hlt ?_
          have hx : e.base ≤ x.base := by
            obtain rfl | hx := List.mem_cons.mp hx
            · exact UInt64.le_refl _
            · exact hfirst x hx
          rwa [hd, ← of_decide_eq_true heq]
        rw [List.filter_cons, hnone]
        simp [hd]
      · simp [List.filter_cons, hd]

theorem ofDevices_concat (ds : List Device) (d : Device) : ofDevices (ds ++ [d]) = (ofDevices ds).add d :=
  List.foldl_concat ..

theorem recent_ofDevices (ds : List Device) : (ofDevices ds).recent = 0 := by
  induction ds using List.reverseRecOn with
  | nil => rfl
  | append_singleton ds d ih => rw [ofDevices_concat]; rfl

theorem perm_ofDevices (ds : List Device) : (ofDevices ds).devices.toList.Perm ds := by
  induction ds using List.reverseRecOn with
  | nil => exact .refl _
  | append_singleton ds d ih =>
    rw [ofDevices_concat]
    exact (perm_insertByBase d _).trans ((ih.cons d).trans (List.perm_append_singleton d ds).symm)

/-- The devices are in the order of their bases. -/
theorem sorted_ofDevices (ds : List Device) : (ofDevices ds).devices.toList.Pairwise (·.base ≤ ·.base) := by
  induction ds using List.reverseRecOn with
  | nil => exact .nil
  | append_singleton ds d ih =>
    rw [ofDevices_concat]
    exact sorted_insertByBase d ih

/-- Devices with one base are in the order in which they were added. -/
theorem filter_ofDevices (ds : List Device) (base : UInt64) :
    (ofDevices ds).devices.toList.filter (·.base = base) = ds.filter (·.base = base) := by
  induction ds using List.reverseRecOn with
  | nil => rfl
  | append_singleton ds d ih =>
    rw [ofDevices_concat, List.filter_append, ← ih]
    exact filter_insertByBase d (sorted_ofDevices ds) base

/-! ## Asking the recent device first -/

/-- The recent device answers if it claims the address, and else the search decides. -/
theorem route?_cases (b : Bus) (address : UInt64) :
    (∃ d, b.devices[b.recent]? = some d ∧ d.claims address = true ∧ b.route? address = some b.recent) ∨
    ((∀ d, b.devices[b.recent]? = some d → d.claims address = false) ∧
      b.route? address = b.devices.findIdx? (·.claims address)) := by
  unfold route?
  cases hd : b.devices[b.recent]? with
  | none => exact .inr ⟨fun d hd => (nomatch hd), rfl⟩
  | some d =>
    cases hclaims : d.claims address with
    | true => exact .inl ⟨d, rfl, hclaims, if_pos hclaims⟩
    | false => exact .inr ⟨fun e he => Option.some.inj he ▸ hclaims, if_neg (by simp [hclaims])⟩

/-- A device that the search finds claims the address. -/
theorem claims_of_findIdx? (h : b.devices.findIdx? (·.claims address) = some i) :
    ∃ d, b.devices[i]? = some d ∧ d.claims address = true := by
  obtain ⟨hi, hclaims, -⟩ := Array.findIdx?_eq_some_iff_getElem.mp h
  exact ⟨_, Array.getElem?_eq_getElem hi, hclaims⟩

/-- A device that answers claims the address. -/
theorem exists_of_route? (h : b.route? address = some i) :
    ∃ d, b.devices[i]? = some d ∧ d.claims address = true := by
  obtain ⟨d, hd, hclaims, hroute⟩ | ⟨-, hroute⟩ := b.route?_cases address
  · obtain rfl := Option.some.inj (hroute.symm.trans h)
    exact ⟨d, hd, hclaims⟩
  · exact claims_of_findIdx? (hroute.symm.trans h)

theorem isValid_eq_false_iff (b : Bus) (address : UInt64) :
    b.isValid address = false ↔ b.devices.findIdx? (·.claims address) = none := by
  unfold isValid
  rw [Array.any_eq_false', Array.findIdx?_eq_none_iff]
  simp

/-- Nothing answers just where no device claims the address. -/
theorem route?_eq_none_iff (b : Bus) (address : UInt64) : b.route? address = none ↔ b.isValid address = false := by
  rw [isValid_eq_false_iff]
  obtain ⟨d, hd, hclaims, hroute⟩ | ⟨-, hroute⟩ := b.route?_cases address
  · rw [hroute, Array.findIdx?_eq_none_iff]
    refine iff_of_false (by simp) fun hnone => ?_
    rw [hnone d (Array.mem_of_getElem? hd)] at hclaims
    cases hclaims
  · rw [hroute]

end Bus

/-! ## What a request changes -/

/-- A device without its state. -/
def Device.blank (d : Device) : Device := { d with state := .empty }

namespace Bus

variable {b b' : Bus} {address : UInt64} {i : ℕ}

/-- The devices without their states. -/
def layout (b : Bus) : Array Device := b.devices.map Device.blank

theorem findIdx?_layout (b : Bus) (address : UInt64) :
    b.layout.findIdx? (·.claims address) = b.devices.findIdx? (·.claims address) :=
  Array.findIdx?_map

theorem getElem?_layout (b : Bus) (i : ℕ) : b.layout[i]? = b.devices[i]?.map Device.blank :=
  Array.getElem?_map

theorem setIfInBounds_self {α : Type} {xs : Array α} {x : α} (h : xs[i]? = some x) : xs.setIfInBounds i x = xs := by
  obtain ⟨hi, rfl⟩ := Array.getElem?_eq_some_iff.mp h
  simp [Array.setIfInBounds, hi]

/-- What a request does: nothing where no device claims the address, and else it reaches one device, which it leaves in
its place. -/
theorem handle_cases (b : Bus) (r : BusRequest) :
    (b.route? r.address = none ∧ b.handle r = b) ∨
    ∃ i d state value, b.route? r.address = some i ∧ b.devices[i]? = some d ∧
      b.handle r = {
        devices := b.devices.setIfInBounds i { d with state }
        recent := i
        accesses := ⟨d.name, r.isWrite, r.width, r.address - d.base, value⟩ :: b.accesses } := by
  cases hroute : b.route? r.address with
  | none =>
    refine .inl ⟨rfl, ?_⟩
    cases r with
    | read w address => unfold handle read; dsimp only; rw [show b.route? address = none from hroute]
    | write w address v => unfold handle write; dsimp only; rw [show b.route? address = none from hroute]
  | some i =>
    obtain ⟨d, hd, -⟩ := exists_of_route? hroute
    refine .inr ?_
    cases r with
    | read w address =>
      let answer := d.respond d.state w (address - d.base)
      refine ⟨i, d, answer.2, w.truncate answer.1, rfl, hd, ?_⟩
      unfold handle read
      dsimp only
      rw [show b.route? address = some i from hroute]
      dsimp only
      rw [hd]
      rfl
    | write w address v =>
      refine ⟨i, d, d.accept d.state w (address - d.base) (w.truncate v), w.truncate v, rfl, hd, ?_⟩
      unfold handle write
      dsimp only
      rw [show b.route? address = some i from hroute]
      dsimp only
      rw [hd]
      rfl

/-- No request moves a device or its range. -/
theorem layout_handle (b : Bus) (r : BusRequest) : (b.handle r).layout = b.layout := by
  obtain ⟨-, h⟩ | ⟨i, d, state, value, -, hd, h⟩ := b.handle_cases r
  · rw [h]
  · rw [h]
    unfold layout
    rw [Array.map_setIfInBounds]
    refine setIfInBounds_self ?_
    rw [Array.getElem?_map, hd]
    rfl

/-- The device that answers becomes the recent one. -/
theorem recent_handle (b : Bus) (r : BusRequest) :
    (b.handle r).recent = (b.route? r.address).getD b.recent := by
  obtain ⟨hroute, h⟩ | ⟨i, d, state, value, hroute, -, h⟩ := b.handle_cases r
  · rw [h, hroute]; rfl
  · rw [h, hroute]; rfl

/-- The device that answered a request is the recent one, and answers the next one at the address. -/
theorem recent_of_route?_handle {r : BusRequest} (h : (b.handle r).route? r.address = some i) :
    (b.handle r).recent = i := by
  obtain ⟨hroute, hb⟩ | ⟨j, d, state, value, hroute, hd, hb⟩ := b.handle_cases r
  · rw [hb, hroute] at h
    cases h
  · obtain ⟨e, he, hclaims⟩ := exists_of_route? hroute
    obtain rfl := Option.some.inj (he.symm.trans hd)
    rw [hb] at h ⊢
    unfold route? at h
    dsimp only at h
    rw [Array.getElem?_setIfInBounds_self_of_lt (Array.getElem?_eq_some_iff.mp hd).1] at h
    dsimp only at h
    rw [if_pos (show Device.claims { e with state := state } r.address = true from hclaims)] at h
    exact Option.some.inj h

/-- A request reaches its target, and nothing else: it is recorded with the device and the offset. -/
def Records (b : Bus) (r : BusRequest) : Prop :=
  match b.target? r.address with
  | none => (b.handle r).accesses = b.accesses
  | some (i, offset) => ∃ d value, b.devices[i]? = some d ∧
      (b.handle r).accesses = ⟨d.name, r.isWrite, r.width, offset, value⟩ :: b.accesses

theorem records_request (b : Bus) (r : BusRequest) : b.Records r := by
  unfold Records target?
  obtain ⟨hroute, h⟩ | ⟨i, d, state, value, hroute, hd, h⟩ := b.handle_cases r
  · rw [hroute, h]
    rfl
  · rw [hroute, Option.bind_some, hd]
    exact ⟨d, value, hd, congrArg Bus.accesses h⟩

/-! ## Along requests -/

/-- What depends on the layout only. -/
theorem findIdx?_congr (h : b.layout = b'.layout) (address : UInt64) :
    b.devices.findIdx? (·.claims address) = b'.devices.findIdx? (·.claims address) := by
  rw [← findIdx?_layout, h, findIdx?_layout]

theorem leads_congr (h : b.layout = b'.layout) : b.Leads i ↔ b'.Leads i := by
  unfold Leads
  simp only [findIdx?_congr h]

theorem claimsAt_iff {offset : UInt64} :
    b.ClaimsAt address i offset ↔ ∃ d, b.layout[i]? = some d ∧ d.claims address = true ∧ offset = address - d.base := by
  rw [getElem?_layout]
  constructor
  · rintro ⟨d, hd, hclaims, hoffset⟩
    exact ⟨d.blank, by rw [hd]; rfl, hclaims, hoffset⟩
  · rintro ⟨e, he, hclaims, hoffset⟩
    obtain ⟨d, hd, rfl⟩ := Option.map_eq_some_iff.mp he
    exact ⟨d, hd, hclaims, hoffset⟩

theorem layout_afterRequests (b : Bus) (rs : List BusRequest) : (b.afterRequests rs).layout = b.layout := by
  induction rs generalizing b with
  | nil => rfl
  | cons r rs ih => exact (ih (b.handle r)).trans (b.layout_handle r)

/-- The recent device is the first one, or it leads. -/
theorem recent_afterRequests (hrecent : b.recent = 0 ∨ b.Leads b.recent) (rs : List BusRequest) :
    (b.afterRequests rs).recent = 0 ∨ (b.afterRequests rs).Leads (b.afterRequests rs).recent := by
  induction rs generalizing b with
  | nil => exact hrecent
  | cons r rs ih =>
    refine ih ?_
    rw [leads_congr (b.layout_handle r), recent_handle]
    obtain ⟨d, -, -, hroute⟩ | ⟨-, hroute⟩ := b.route?_cases r.address
    · rw [hroute]
      exact hrecent
    · rw [hroute]
      cases hfind : b.devices.findIdx? (·.claims r.address) with
      | none => exact hrecent
      | some i => exact .inr ⟨r.address, hfind⟩

/-- Where the first device claims an address, the search finds it. -/
theorem findIdx?_of_zero {d : Device} (hd : b.devices[0]? = some d) (hclaims : d.claims address = true) :
    b.devices.findIdx? (·.claims address) = some 0 := by
  obtain ⟨h0, rfl⟩ := Array.getElem?_eq_some_iff.mp hd
  exact Array.findIdx?_eq_some_iff_getElem.mpr ⟨h0, hclaims, fun j hj => absurd hj (Nat.not_lt_zero j)⟩

/-- A bus whose recent device is the first one answers by the search. -/
theorem route?_of_recent (hrecent : b.recent = 0) (address : UInt64) :
    b.route? address = b.devices.findIdx? (·.claims address) := by
  obtain ⟨d, hd, hclaims, hroute⟩ | ⟨-, hroute⟩ := b.route?_cases address
  · rw [hroute, hrecent]
    rw [hrecent] at hd
    exact (findIdx?_of_zero hd hclaims).symm
  · exact hroute

theorem target?_eq_some_iff {offset : UInt64} :
    b.target? address = some (i, offset) ↔ b.route? address = some i ∧ b.ClaimsAt address i offset := by
  unfold target?
  constructor
  · intro h
    obtain ⟨j, hroute, h⟩ := Option.bind_eq_some_iff.mp h
    obtain ⟨d, hd, h⟩ := Option.map_eq_some_iff.mp h
    obtain ⟨rfl, rfl⟩ := Prod.mk.inj h
    obtain ⟨e, he, hclaims⟩ := exists_of_route? hroute
    obtain rfl := Option.some.inj (he.symm.trans hd)
    exact ⟨hroute, e, hd, hclaims, rfl⟩
  · rintro ⟨hroute, d, hd, -, rfl⟩
    rw [hroute, Option.bind_some, hd]
    rfl

theorem target?_eq_none_iff : b.target? address = none ↔ b.isValid address = false := by
  rw [← route?_eq_none_iff]
  unfold target?
  constructor
  · intro h
    cases hroute : b.route? address with
    | none => rfl
    | some i =>
      obtain ⟨d, hd, -⟩ := exists_of_route? hroute
      rw [hroute, Option.bind_some, hd] at h
      cases h
  · intro h
    rw [h]
    rfl

/-- A bus on which nothing was requested answers in the order of the devices. -/
theorem target?_of_recent (hrecent : b.recent = 0) (address : UInt64) :
    b.target? address = b.firstTarget? address := by
  unfold target? firstTarget?
  rw [route?_of_recent hrecent]

theorem isValid_afterRequests (b : Bus) (rs : List BusRequest) (address : UInt64) :
    (b.afterRequests rs).isValid address = b.isValid address := by
  rw [Bool.eq_iff_iff, ← not_iff_not, Bool.not_eq_true, Bool.not_eq_true, isValid_eq_false_iff, isValid_eq_false_iff,
    findIdx?_congr (b.layout_afterRequests rs)]

/-- **Who may answer**: after some requests a device answers an address just when it claims the address and is the first
to claim some address, this one or another. -/
theorem exists_target?_iff (hrecent : b.recent = 0) {offset : UInt64} :
    (∃ rs, (b.afterRequests rs).target? address = some (i, offset)) ↔ b.Leads i ∧ b.ClaimsAt address i offset := by
  constructor
  · rintro ⟨rs, htarget⟩
    obtain ⟨hroute, hclaims⟩ := target?_eq_some_iff.mp htarget
    have hlayout := b.layout_afterRequests rs
    rw [claimsAt_iff, hlayout, ← claimsAt_iff] at hclaims
    refine ⟨(leads_congr hlayout).mp ?_, hclaims⟩
    obtain ⟨d, hd, hrecent', hroute'⟩ | ⟨-, hroute'⟩ := (b.afterRequests rs).route?_cases address
    · obtain rfl := Option.some.inj (hroute'.symm.trans hroute)
      obtain hzero | hleads := b.recent_afterRequests (.inl hrecent) rs
      · rw [hzero] at hd ⊢
        exact ⟨address, findIdx?_of_zero hd hrecent'⟩
      · exact hleads
    · exact ⟨address, hroute'.symm.trans hroute⟩
  · rintro ⟨⟨x, hfind⟩, hclaims⟩
    -- a request that the device answers first makes it the recent one
    let r : BusRequest := .read .byte x
    have hanswers : (b.handle r).recent = i := by
      rw [recent_handle, route?_of_recent hrecent, show b.devices.findIdx? (·.claims r.address) = some i from hfind]
      rfl
    have hclaims' : (b.handle r).ClaimsAt address i offset := by
      rwa [claimsAt_iff, layout_handle, ← claimsAt_iff]
    refine ⟨[r], target?_eq_some_iff.mpr ⟨?_, hclaims'⟩⟩
    obtain ⟨e, he, heclaims, -⟩ := hclaims'
    obtain ⟨-, -, -, hroute⟩ | ⟨hnot, -⟩ := (b.handle r).route?_cases address
    · exact hroute.trans (congrArg some hanswers)
    · exact absurd heclaims (by rw [hnot e (hanswers ▸ he)]; exact Bool.false_ne_true)

/-- No device that leads claims the address behind the first one that claims it. -/
def Undisputed (b : Bus) (address : UInt64) : Prop :=
  ∀ i offset, b.Leads i → b.ClaimsAt address i offset → b.firstTarget? address = some (i, offset)

theorem claimsAt_of_firstTarget? {offset : UInt64} (h : b.firstTarget? address = some (i, offset)) :
    b.ClaimsAt address i offset :=
  -- the search is all that is left when the first device is the recent one
  (target?_eq_some_iff.mp ((target?_of_recent (b := { b with recent := 0 }) rfl address).trans h)).2

theorem exists_firstTarget? {offset : UInt64} (h : b.ClaimsAt address i offset) :
    ∃ j offset, b.firstTarget? address = some (j, offset) := by
  obtain ⟨d, hd, hclaims, -⟩ := h
  cases hfirst : b.firstTarget? address with
  | some t => exact ⟨t.1, t.2, rfl⟩
  | none =>
    have hnone := target?_eq_none_iff.mp ((target?_of_recent (b := { b with recent := 0 }) rfl address).trans hfirst)
    have hvalid := Array.findIdx?_eq_none_iff.mp ((isValid_eq_false_iff _ _).mp hnone) d (Array.mem_of_getElem? hd)
    rw [hclaims] at hvalid
    cases hvalid

/-- An address that one device claims is not disputed. -/
theorem undisputed_of_subsingleton
    (h : ∀ i j offset offset', b.ClaimsAt address i offset → b.ClaimsAt address j offset' → i = j) :
    b.Undisputed address := by
  intro i offset _ hclaims
  obtain ⟨j, offset', hfirst⟩ := exists_firstTarget? hclaims
  have hclaims' := claimsAt_of_firstTarget? hfirst
  obtain rfl := h i j offset offset' hclaims hclaims'
  obtain ⟨d, hd, -, rfl⟩ := hclaims
  obtain ⟨e, he, -, rfl⟩ := hclaims'
  obtain rfl := Option.some.inj (hd.symm.trans he)
  exact hfirst

theorem undisputed_iff (hrecent : b.recent = 0) :
    b.Undisputed address ↔ ∀ rs, (b.afterRequests rs).target? address = b.firstTarget? address := by
  constructor
  · intro h rs
    cases htarget : (b.afterRequests rs).target? address with
    | none =>
      have hvalid := target?_eq_none_iff.mp htarget
      rw [isValid_afterRequests] at hvalid
      exact (target?_eq_none_iff.mpr hvalid).symm.trans (target?_of_recent hrecent address)
    | some t =>
      obtain ⟨hleads, hclaims⟩ := (exists_target?_iff hrecent).mp ⟨rs, htarget⟩
      exact (h t.1 t.2 hleads hclaims).symm
  · intro h i offset hleads hclaims
    obtain ⟨rs, htarget⟩ := (exists_target?_iff hrecent).mpr ⟨hleads, hclaims⟩
    exact (h rs).symm.trans htarget

end Bus

open Bus

/-- **Devices answer in the order of their bases, unless a later one is asked first.** The devices of a list are kept in
the order of their bases, and of equal bases in the order of the list. After any requests, nothing answers an address
just where no device claims it, a request reaches its target, and the devices that can answer an address are those that
claim it and lead. So the answer depends on the requests just where a device that leads claims the address behind the
first device that claims it. -/
theorem routed_in_order_unless_led (ds : List Device) :
    ((ofDevices ds).devices.toList.Perm ds ∧ (ofDevices ds).devices.toList.Pairwise (·.base ≤ ·.base) ∧
      ∀ base, (ofDevices ds).devices.toList.filter (·.base = base) = ds.filter (·.base = base)) ∧
    (∀ rs address, ((ofDevices ds).afterRequests rs).isValid address = (ofDevices ds).isValid address ∧
      (((ofDevices ds).afterRequests rs).target? address = none ↔ (ofDevices ds).isValid address = false)) ∧
    (∀ rs r, ((ofDevices ds).afterRequests rs).Records r) ∧
    (∀ address i offset, (∃ rs, ((ofDevices ds).afterRequests rs).target? address = some (i, offset)) ↔
      (ofDevices ds).Leads i ∧ (ofDevices ds).ClaimsAt address i offset) ∧
    ∀ address,
      ((ofDevices ds).Undisputed address ↔
        ∀ rs, ((ofDevices ds).afterRequests rs).target? address = (ofDevices ds).firstTarget? address) ∧
      ((ofDevices ds).Undisputed address ↔
        ∀ rs rs', ((ofDevices ds).afterRequests rs).target? address =
          ((ofDevices ds).afterRequests rs').target? address) := by
  have hrecent := recent_ofDevices ds
  refine ⟨⟨perm_ofDevices ds, sorted_ofDevices ds, filter_ofDevices ds⟩, fun rs address => ?_,
    fun rs r => records_request _ r, fun address i offset => exists_target?_iff hrecent,
    fun address => ⟨undisputed_iff hrecent, ?_⟩⟩
  · rw [target?_eq_none_iff, isValid_afterRequests]
    exact ⟨rfl, Iff.rfl⟩
  · rw [undisputed_iff hrecent]
    constructor
    · intro h rs rs'
      rw [h rs, h rs']
    · intro h rs
      rw [h rs [], ← target?_of_recent hrecent]
      rfl

/-- Two devices, the second of which lies in the first and ends behind it. -/
def overlapping : List Device := [.memory "A" 0x1000 0x1800 .empty, .memory "B" 0x2000 0x1000 .empty]

/-- An address of both devices is answered by the first one, and by the second one after a request that only this one
answers. -/
theorem recent_device_answers :
    (ofDevices overlapping).firstTarget? 0x2400 = some (0, 0x1400) ∧
      ((ofDevices overlapping).afterRequests []).target? 0x2400 = some (0, 0x1400) ∧
      ((ofDevices overlapping).afterRequests [.read .byte 0x2900]).target? 0x2400 = some (1, 0x400) := by
  decide +kernel

end Vr4300
