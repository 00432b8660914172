import Mathlib.Data.Nat.Bitwise
import AegisHV.Spec.Vgic

/-! Acknowledgements of the virtual interrupt controller: which interrupt they give out, and that
a shared interrupt is not given out again before it is deactivated. -/

namespace AegisHV.Vgic
open Sys List

@[simp] theorem getLsbD_bit {id i : ℕ} (h : i < 32) : (bit id).getLsbD i = decide (i = id) := by
  rw [bit, ← BitVec.twoPow_eq]
  by_cases heq : i = id
  · simp [h]
  · simp [heq, Ne.symm heq]

theorem and_shift_ne_zero {width : ℕ} (bits : BitVec width) {i : ℕ} (h : i < width) :
    (bits &&& BitVec.ofNat width 1 <<< i) != 0 ↔ bits.getLsbD i := by
  rw [← BitVec.twoPow_eq, BitVec.and_twoPow]
  by_cases hbit : bits.getLsbD i
  · rw [if_pos hbit]
    refine iff_of_true (bne_iff_ne.mpr fun hzero => ?_) hbit
    have := congrArg (fun b => b.getLsbD i) hzero
    simp [h] at this
  · rw [if_neg hbit]
    exact iff_of_false (by simp) hbit

namespace View

/-- An interrupt a CPU may be given: pending, enabled and not active, with a priority below the
CPU's mask, and, if it is shared, with the CPU among its targets. -/
structure Deliverable (v : View) (cpu id : ℕ) : Prop where
  id_lt : id < 64
  pending : (v.getBank (id < 32)).pending.getLsbD (id % 32)
  enabled : (v.getBank (id < 32)).enabled.getLsbD (id % 32)
  inactive : ¬ (v.getBank (id < 32)).active.getLsbD (id % 32)
  below : v.priority id < v.own.mask.toNat
  targeted : 32 ≤ id → (v.distributor.shared.targets (id % 32)).getLsbD cpu

theorem deliverable_iff {v : View} {cpu id : ℕ} (hcpu : cpu < v.distributor.cpus) :
    id < 64 ∧ v.deliverable cpu id = true ↔ v.Deliverable cpu id := by
  have h8 : cpu < 8 := Nat.lt_of_lt_of_le hcpu v.distributor.cpus_le.2
  have hindex : id % 32 < 32 := Nat.mod_lt _ (by decide)
  simp only [deliverable, Bool.and_eq_true, bit, and_shift_ne_zero _ hindex, BitVec.getLsbD_and,
    BitVec.getLsbD_not, hindex, decide_true, Bool.true_and, Bool.not_eq_true', Bool.or_eq_true,
    decide_eq_true_eq, and_shift_ne_zero _ h8]
  constructor
  · rintro ⟨hid, ⟨⟨⟨hpending, henabled⟩, hactive⟩, hbelow⟩, htarget⟩
    refine ⟨hid, hpending, henabled, by simp [hactive], hbelow, fun hshared => ?_⟩
    have hown : decide (id < 32) = false := by simpa using hshared
    rw [hown] at htarget
    exact htarget.resolve_left (by omega)
  · rintro ⟨hid, hpending, henabled, hactive, hbelow, htarget⟩
    refine ⟨hid, ⟨⟨⟨hpending, henabled⟩, by simpa using hactive⟩, hbelow⟩, ?_⟩
    rcases Nat.lt_or_ge id 32 with hown | hshared
    · exact .inl hown
    · have hown : decide (id < 32) = false := by simpa using hshared
      rw [hown]
      exact .inr (htarget hshared)

/-- In a list that is sorted, what comes first is smaller. -/
theorem le_of_idxOf_le {l : List ℕ} (hl : l.Pairwise (· < ·)) {a b : ℕ} (ha : a ∈ l) (hb : b ∈ l)
    (h : l.idxOf a ≤ l.idxOf b) : a ≤ b := by
  have ha' := idxOf_lt_length_of_mem ha
  have hb' := idxOf_lt_length_of_mem hb
  rcases Nat.lt_or_ge (l.idxOf a) (l.idxOf b) with hlt | hge
  · have := pairwise_iff_getElem.mp hl _ _ ha' hb' hlt
    rw [getElem_idxOf ha', getElem_idxOf hb'] at this
    exact this.le
  · exact ((idxOf_inj ha).mp (Nat.le_antisymm h hge)).le

/-- What an acknowledgement is to find: the interrupt with the smallest priority value and then
the lowest id, if there is one and the controller and the CPU's interface are enabled. -/
def Best (v : View) (cpu id : ℕ) : Prop :=
  v.Deliverable cpu id ∧ ∀ other, v.Deliverable cpu other →
    v.priority id < v.priority other ∨ v.priority id = v.priority other ∧ id ≤ other

theorem next_spec {v : View} {cpu : ℕ} (hcpu : cpu < v.distributor.cpus) :
    if v.distributor.enabled && v.own.enabled then
      v.Best cpu (v.next cpu) ∨ (∀ id, ¬ v.Deliverable cpu id) ∧ v.next cpu = 1023
    else v.next cpu = 1023 := by
  by_cases hon : (v.distributor.enabled && v.own.enabled) = true
  · rw [if_pos hon]
    have hoff : (!v.distributor.enabled || !v.own.enabled) = false := by
      rw [← Bool.not_and, hon]
      rfl
    have hmem : ∀ id, id ∈ (List.range 64).filter (v.deliverable cpu) ↔ v.Deliverable cpu id := by
      intro id
      rw [mem_filter, mem_range, deliverable_iff hcpu]
    rw [next, hoff]
    cases hmin : ((List.range 64).filter (v.deliverable cpu)).argmin v.priority with
    | none =>
      refine .inr ⟨fun id hid => ?_, rfl⟩
      rw [argmin_eq_none] at hmin
      exact absurd (hmin ▸ (hmem id).mpr hid) not_mem_nil
    | some id =>
      obtain ⟨hid, hle, hfirst⟩ := argmin_eq_some_iff.mp hmin
      refine .inl ⟨(hmem id).mp hid, fun other hother => ?_⟩
      have hother := (hmem other).mpr hother
      rcases Nat.lt_or_ge (v.priority id) (v.priority other) with hlt | hge
      · exact .inl hlt
      · refine .inr ⟨Nat.le_antisymm (hle other hother) hge, ?_⟩
        exact le_of_idxOf_le (pairwise_lt_range.filter _) hid hother
          (hfirst other hother hge)
  · rw [next, ← Bool.not_and, Bool.eq_false_iff.mpr hon]
    rfl

theorem next_lt_or {v : View} {cpu : ℕ} (hcpu : cpu < v.distributor.cpus)
    (hne : v.next cpu ≠ 1023) : v.Best cpu (v.next cpu) := by
  have hspec := next_spec hcpu
  split at hspec
  · exact hspec.resolve_right fun h => hne h.2
  · exact absurd hspec hne

section

variable (v : View) (banked : Bool) (f : Bank → Bank)

@[simp] theorem withBank_sources : (v.withBank banked f).own.sources = v.own.sources := by
  cases banked <;> rfl

end

/-- The CPU has the same interrupts pending from the same sources, and the same shared ones are
active. -/
structure Same (v v' : View) : Prop where
  pending : v'.own.bank.pending = v.own.bank.pending
  sources : v'.own.sources = v.own.sources
  active : v'.distributor.shared.active = v.distributor.shared.active

theorem Same.refl (v : View) : v.Same v := ⟨rfl, rfl, rfl⟩

theorem same_withBank (v : View) (banked : Bool) {f : Bank → Bank}
    (hpending : ∀ bank, (f bank).pending = bank.pending)
    (hactive : ∀ bank, (f bank).active = bank.active) : v.Same (v.withBank banked f) := by
  cases banked with
  | false => exact ⟨rfl, rfl, hactive _⟩
  | true => exact ⟨hpending _, rfl, rfl⟩

/-- The bank with its enabled, its pending and its active bits changed. -/
def setEnabled (f : BitVec 32 → BitVec 32) (bank : Bank) : Bank :=
  { bank with enabled := f bank.enabled }

def setPending (f : BitVec 32 → BitVec 32) (bank : Bank) : Bank :=
  { bank with pending := f bank.pending }

def setActive (f : BitVec 32 → BitVec 32) (bank : Bank) : Bank :=
  { bank with active := f bank.active }

/-- All that an access can do to what is pending and active. -/
inductive Effect (v : View) (cpu address : ℕ) (value : Option (BitVec 32)) (bytes : ℕ) :
    Option (BitVec 32) × View → Prop
  | same {r : Option (BitVec 32)} {v' : View} (h : v.Same v')
    (hnot : address = 0x0801000c → value = none → bytes = 4 → r = none) :
    Effect v cpu address value bytes (r, v')
  | acknowledged (haddress : address = 0x0801000c) (hvalue : value = none) (hbytes : bytes = 4)
    (hcpu : cpu < v.distributor.cpus) :
    Effect v cpu address value bytes (some (v.acknowledge cpu).1, (v.acknowledge cpu).2)
  | deactivated (word : BitVec 32) (haddress : address = 0x08010010 ∨ address = 0x08011000)
    (hvalue : value = some word) (hbytes : bytes = 4) :
    Effect v cpu address value bytes (some 0, v.deactivate word)
  | pending (banked clear : Bool) (word : BitVec 32)
    (haddress : address = 0x08000200 + (if clear then 0x80 else 0) + if banked then 0 else 4)
    (hvalue : value = some word) (hbytes : bytes = 4) (hcpu : cpu < v.distributor.cpus)
    {r : Option (BitVec 32)} : Effect v cpu address value bytes
      (r, v.withBank banked (setPending (writeBits clear (some word))))
  | active (banked clear : Bool) (word : BitVec 32)
    (haddress : address = 0x08000300 + (if clear then 0x80 else 0) + if banked then 0 else 4)
    (hvalue : value = some word) (hbytes : bytes = 4) {r : Option (BitVec 32)} (hr : r ≠ none) :
    Effect v cpu address value bytes
      (r, v.withBank banked (setActive (writeBits clear (some word))))

section

variable {v : View} {cpu address : ℕ} {value : Option (BitVec 32)} {bytes : ℕ}

theorem cpuInterface_effect (hpage : address / 0x10000 = 0x0801) (hbytes : bytes = 4)
    (hcpu : cpu < v.distributor.cpus) :
    v.Effect cpu address value bytes (some (v.cpuInterface cpu (address % 0x10000) value).1,
      (v.cpuInterface cpu (address % 0x10000) value).2) := by
  have haddress := Nat.div_add_mod address 0x10000
  generalize hoffset : address % 0x10000 = offset at haddress
  have hquiet : ∀ {r : Option (BitVec 32)} {v' : View}, v.Same v' →
      (offset ≠ 0xc ∨ value ≠ none) → v.Effect cpu address value bytes (r, v') :=
    fun h hor => .same h fun ha hv _ => by
      rcases hor with hor | hor
      · omega
      · exact absurd hv hor
  cases value with
  | some word =>
    rw [cpuInterface]
    by_cases h0 : offset = 0
    · rw [if_pos h0]
      exact hquiet ⟨rfl, rfl, rfl⟩ (.inr (Option.some_ne_none word))
    by_cases h4 : offset = 4
    · rw [if_neg h0, if_pos h4]
      exact hquiet ⟨rfl, rfl, rfl⟩ (.inr (Option.some_ne_none word))
    by_cases hend : offset = 0x10 ∨ offset = 0x1000
    · rw [if_neg h0, if_neg h4, if_pos hend]
      exact .deactivated word (by omega) rfl hbytes
    · rw [if_neg h0, if_neg h4, if_neg hend]
      exact hquiet (.refl v) (.inr (Option.some_ne_none word))
  | none =>
    rw [cpuInterface]
    by_cases hack : offset = 0xc
    · rw [if_neg (by omega), if_neg (by omega), if_pos hack]
      exact .acknowledged (by omega) rfl hbytes hcpu
    · split_ifs <;> exact hquiet (.refl v) (.inl hack)

theorem byteRegisters_same (v : View) (cpu offset : ℕ) (value : Option (BitVec 32)) (bytes : ℕ) :
    v.Same (v.byteRegisters cpu offset value bytes).2 := by
  unfold byteRegisters
  dsimp only
  split
  · exact .refl v
  split
  · exact .refl v
  split
  · dsimp only
    refine same_withBank v _ (fun _ => ?_) fun _ => ?_ <;> rfl
  · dsimp only
    refine same_withBank v _ (fun _ => ?_) fun _ => ?_ <;> rfl

theorem control_same (v : View) (offset : ℕ) (value : Option (BitVec 32)) :
    v.Same (v.control offset value).2 := by
  cases value with
  | some word =>
    rw [control]
    split_ifs
    · exact ⟨rfl, rfl, rfl⟩
    · exact .refl v
  | none =>
    rw [control]
    split_ifs <;> exact .refl v

/-- An offset from its register and the bit that tells the banks apart. -/
theorem offset_eq {offset : ℕ} (h : offset < 0x10000) :
    offset = (offset &&& 0xfffb) ||| if offset &&& 4 == 0 then 0 else 4 := by
  have hwhole : (offset &&& 0xfffb) ||| (offset &&& 4) = offset := by
    rw [← Nat.and_or_distrib_left]
    exact (Nat.and_two_pow_sub_one_eq_mod offset 16).trans (Nat.mod_eq_of_lt h)
  have hfour : offset &&& 4 = (offset.testBit 2).toNat * 4 := Nat.and_two_pow offset 2
  cases hbit : offset.testBit 2 <;> rw [hbit] at hfour <;> rw [hfour] at hwhole ⊢ <;>
    exact hwhole.symm

theorem withBank_self (v : View) (banked : Bool) : v.withBank banked (fun bank => bank) = v := by
  cases banked <;> rfl

/-- The registers for pending and active bits, as far as they are written. -/
theorem bitRegister_effect {offset : ℕ} (hcpu : cpu < v.distributor.cpus)
    (hoffset : offset < 0x10000) (haddress : address = 0x08000000 + offset) (hbytes : bytes = 4)
    (hregister : offset &&& 0xfffb ∈ [0x100, 0x180, 0x200, 0x280, 0x300, 0x380]) :
    v.Effect cpu address value bytes
      (some (v.bitRegister (offset &&& 4 == 0) (offset &&& 0xfffb) value).1,
        (v.bitRegister (offset &&& 4 == 0) (offset &&& 0xfffb) value).2) := by
  have hoff := offset_eq hoffset
  generalize offset &&& 0xfffb = register at hoff hregister
  generalize (offset &&& 4 == 0) = banked at hoff
  have hnot : address = 0x0801000c → value = none → bytes = 4 →
      (some (v.bitRegister banked register value).1) = none := by omega
  cases value with
  | none =>
    refine .same ?_ hnot
    rw [bitRegister]
    split_ifs <;> exact (withBank_self v banked).symm ▸ .refl v
  | some word =>
    simp only [mem_cons, not_mem_nil, or_false] at hregister
    rcases hregister with rfl | rfl | rfl | rfl | rfl | rfl
    · have hsame := @same_withBank v banked (setEnabled (writeBits false (some word)))
        (fun _ => rfl) fun _ => rfl
      exact .same hsame hnot
    · have hsame := @same_withBank v banked (setEnabled (writeBits true (some word)))
        (fun _ => rfl) fun _ => rfl
      exact .same hsame hnot
    · exact .pending banked false word (by subst haddress hoff; cases banked <;> rfl) rfl hbytes hcpu
    · exact .pending banked true word (by subst haddress hoff; cases banked <;> rfl) rfl hbytes hcpu
    · exact .active banked false word (by subst haddress hoff; cases banked <;> rfl) rfl hbytes
        (Option.some_ne_none _)
    · exact .active banked true word (by subst haddress hoff; cases banked <;> rfl) rfl hbytes
        (Option.some_ne_none _)

theorem access_effect (v : View) (cpu address : ℕ) (value : Option (BitVec 32)) (bytes : ℕ) :
    v.Effect cpu address value bytes (v.access cpu address value bytes) := by
  have hrefused : v.Effect cpu address value bytes (none, v) := .same (.refl v) fun _ _ _ => rfl
  rw [access]
  by_cases hinvalid : bytes ∉ [1, 2, 4] ∨ address % bytes ≠ 0 ∨ cpu ≥ v.distributor.cpus
  · rwa [if_pos hinvalid]
  rw [if_neg hinvalid]
  have hcpu : cpu < v.distributor.cpus := by
    obtain ⟨-, h⟩ := not_or.mp hinvalid
    exact Nat.not_le.mp (not_or.mp h).2
  by_cases hinterface : address / 0x10000 = 0x0801
  · rw [if_pos hinterface]
    by_cases hbytes : bytes = 4
    · rw [if_neg (not_not_intro hbytes)]
      exact cpuInterface_effect hinterface hbytes hcpu
    · rwa [if_pos hbytes]
  rw [if_neg hinterface]
  by_cases hdistributor : address / 0x10000 = 0x0800
  · rw [if_neg (not_not_intro hdistributor)]
    have hnot : ∀ r : Option (BitVec 32), address = 0x0801000c → value = none → bytes = 4 →
        r = none := by
      omega
    by_cases hbyte : (0x400 ≤ address % 0x10000 ∧ address % 0x10000 ≤ 0x43f) ∨
        (0x800 ≤ address % 0x10000 ∧ address % 0x10000 ≤ 0x83f)
    · rw [if_pos hbyte]
      exact .same (byteRegisters_same v cpu _ value bytes) (hnot _)
    rw [if_neg hbyte]
    by_cases hbytes : bytes = 4
    · rw [if_neg (not_not_intro hbytes)]
      by_cases hregister :
          address % 0x10000 &&& 0xfffb ∈ [0x100, 0x180, 0x200, 0x280, 0x300, 0x380]
      · rw [if_pos hregister]
        exact bitRegister_effect hcpu (Nat.mod_lt _ (by decide)) (by omega) hbytes hregister
      · rw [if_neg hregister]
        exact .same (control_same v _ value) (hnot _)
    · rwa [if_pos hbytes]
  · rwa [if_pos hdistributor]

end

theorem exists_getLsbD_of_ne_zero {bits : BitVec 8} (h : bits ≠ 0) : ∃ i < 8, bits.getLsbD i := by
  by_contra hnone
  refine h (BitVec.eq_of_getLsbD_eq fun i hi => ?_)
  have hbit : bits.getLsbD i = false := Bool.eq_false_iff.mpr fun hbit => hnone ⟨i, hi, hbit⟩
  exact hbit.trans BitVec.getLsbD_zero.symm

/-- The lowest bit is there, if any is. -/
theorem trailingZeros_spec {bits : BitVec 8} (h : bits ≠ 0) :
    trailingZeros bits < 8 ∧ bits.getLsbD (trailingZeros bits) := by
  obtain ⟨i, hi, hbit⟩ := exists_getLsbD_of_ne_zero h
  have hlt : trailingZeros bits < (List.range 8).length :=
    findIdx_lt_length_of_exists ⟨i, mem_range.mpr hi, hbit⟩
  have hindex : (List.range 8)[trailingZeros bits] = trailingZeros bits := getElem_range hlt
  have hfound : bits.getLsbD (List.range 8)[trailingZeros bits] := findIdx_getElem
  rw [hindex] at hfound
  exact ⟨hlt, hfound⟩

theorem takeSource_distributor (v : View) (id source : ℕ) :
    (v.takeSource id source).distributor = v.distributor := by
  rw [takeSource]
  split <;> rfl

section

variable {v : View} {cpu : ℕ}

/-- What is acknowledged is taken out of the pending bits and put into the active ones. -/
def take (id : ℕ) (bank : Bank) : Bank :=
  { bank with
    pending := bank.pending &&& ~~~bit (id % 32), active := bank.active ||| bit (id % 32) }

theorem acknowledge_none (h : v.next cpu = 1023) : v.acknowledge cpu = (1023, v) := by
  rw [acknowledge, h]
  rfl

theorem acknowledge_sourced (h : v.next cpu ≠ 1023) (hsource : v.next cpu < 16 ∧
    v.own.sources (v.next cpu) ≠ 0) : v.acknowledge cpu =
      (BitVec.ofNat 32 (v.next cpu) |||
          (BitVec.ofNat 32 (trailingZeros (v.own.sources (v.next cpu))) <<< 10),
        (v.withBank (v.next cpu < 32) (take (v.next cpu))).takeSource (v.next cpu)
          (trailingZeros (v.own.sources (v.next cpu)))) := by
  rw [acknowledge]
  rw [if_neg h, if_pos hsource]
  rfl

theorem acknowledge_plain (h : v.next cpu ≠ 1023) (hsource : ¬ (v.next cpu < 16 ∧
    v.own.sources (v.next cpu) ≠ 0)) : v.acknowledge cpu =
      (BitVec.ofNat 32 (v.next cpu), v.withBank (v.next cpu < 32) (take (v.next cpu))) := by
  rw [acknowledge]
  rw [if_neg h, if_neg hsource]
  rfl

theorem acknowledge_distributor (h : v.next cpu ≠ 1023) :
    (v.acknowledge cpu).2.distributor =
      (v.withBank (v.next cpu < 32) (take (v.next cpu))).distributor := by
  by_cases hsource : v.next cpu < 16 ∧ v.own.sources (v.next cpu) ≠ 0
  · rw [acknowledge_sourced h hsource, takeSource_distributor]
  · rw [acknowledge_plain h hsource]

theorem id_of_plain : ∀ id < 64, (BitVec.ofNat 32 id &&& 1023).toNat = id := by decide

theorem id_of_sourced : ∀ id < 16, ∀ source < 8,
    ((BitVec.ofNat 32 id ||| (BitVec.ofNat 32 source <<< 10)) &&& 1023).toNat = id := by decide

/-- The id in the value read is the interrupt that was picked. -/
theorem acknowledge_id (hcpu : cpu < v.distributor.cpus) :
    ((v.acknowledge cpu).1 &&& 1023).toNat = v.next cpu := by
  by_cases h : v.next cpu = 1023
  · rw [acknowledge_none h, h]
    exact (by decide : (1023 &&& 1023 : BitVec 32).toNat = 1023)
  have hlt := (next_lt_or hcpu h).1.id_lt
  by_cases hsource : v.next cpu < 16 ∧ v.own.sources (v.next cpu) ≠ 0
  · rw [acknowledge_sourced h hsource]
    exact id_of_sourced _ hsource.1 _ (trailingZeros_spec hsource.2).1
  · rw [acknowledge_plain h hsource]
    exact id_of_plain _ hlt

end

theorem getLsbD_writeBits {clear : Bool} {word bits : BitVec 32} {i : ℕ} (hi : i < 32) :
    (writeBits clear (some word) bits).getLsbD i =
      if clear then bits.getLsbD i && !word.getLsbD i else bits.getLsbD i || word.getLsbD i := by
  cases clear <;> simp [writeBits, hi]

/-- An acknowledgement leaves what is active active. -/
theorem acknowledge_active {v : View} {cpu i : ℕ}
    (h : v.distributor.shared.active.getLsbD i) :
    (v.acknowledge cpu).2.distributor.shared.active.getLsbD i := by
  by_cases hnone : v.next cpu = 1023
  · rwa [acknowledge_none hnone]
  rw [acknowledge_distributor hnone]
  rcases Nat.lt_or_ge (v.next cpu) 32 with hown | hshared
  · rw [decide_eq_true hown]
    exact h
  · rw [decide_eq_false (Nat.not_lt.mpr hshared)]
    change (v.distributor.shared.active ||| bit _).getLsbD i
    rw [BitVec.getLsbD_or, h, Bool.true_or]

/-- A shared interrupt that is acknowledged was not active and is active from then on. -/
theorem acknowledge_shared {v : View} {cpu : ℕ} (hcpu : cpu < v.distributor.cpus)
    (hshared : 32 ≤ v.next cpu) (hlt : v.next cpu < 64) :
    ¬ v.distributor.shared.active.getLsbD (v.next cpu - 32) ∧
      (v.acknowledge cpu).2.distributor.shared.active.getLsbD (v.next cpu - 32) := by
  have hne : v.next cpu ≠ 1023 := by omega
  have hown : decide (v.next cpu < 32) = false := decide_eq_false (Nat.not_lt.mpr hshared)
  have hindex : v.next cpu % 32 = v.next cpu - 32 := by omega
  constructor
  · have hinactive := (next_lt_or hcpu hne).1.inactive
    rwa [hown, hindex] at hinactive
  · rw [acknowledge_distributor hne, hown]
    change (v.distributor.shared.active ||| bit (v.next cpu % 32)).getLsbD _
    rw [BitVec.getLsbD_or, getLsbD_bit (by omega), hindex, decide_eq_true rfl, Bool.or_true]

end View

/-- An acknowledgement of the interrupt, as the log shows it. -/
def Acknowledges (entry : Call × Reply) (id : ℕ) : Prop :=
  ∃ cpu word, entry = (.access cpu 0x0801000c none 4, .value (some word)) ∧
    (word &&& 1023).toNat = id

/-- A write that deactivates the shared interrupt: of its id to the end-of-interrupt or the
deactivate register, or of its bit to the register that clears active bits. -/
def Deactivates (entry : Call × Reply) (id : ℕ) : Prop :=
  ∃ cpu address word result,
    entry = (.access cpu address (some word) 4, .value (some result)) ∧
      ((address = 0x08010010 ∨ address = 0x08011000) ∧ (word &&& 1023).toNat = id ∨
        address = 0x08000384 ∧ word.getLsbD (id - 32))

namespace Gic

/-- The shared interrupts that are active. -/
def Active (s : Gic) (id : ℕ) : Prop :=
  32 ≤ id ∧ id < 64 ∧ s.distributor.shared.active.getLsbD (id - 32)

theorem access_keeps_active {v : View} {cpu address bytes : ℕ} {value : Option (BitVec 32)}
    {out : Option (BitVec 32) × View} (h : v.Effect cpu address value bytes out) {id : ℕ}
    (hshared : 32 ≤ id) (hlt : id < 64) (hactive : v.distributor.shared.active.getLsbD (id - 32)) :
    Deactivates (.access cpu address value bytes, .value out.1) id ∨
      out.2.distributor.shared.active.getLsbD (id - 32) := by
  have hi : id - 32 < 32 := by omega
  cases h with
  | same hsame => exact .inr (hsame.active ▸ hactive)
  | acknowledged => exact .inr (View.acknowledge_active hactive)
  | deactivated word haddress hvalue hbytes =>
    subst hvalue hbytes
    by_cases hid : (word &&& 1023).toNat = id
    · exact .inl ⟨cpu, address, word, 0, rfl, .inl ⟨haddress, hid⟩⟩
    refine .inr ?_
    rw [View.deactivate]
    split_ifs
    · rcases Nat.lt_or_ge (word &&& 1023).toNat 32 with hown | hother
      · rw [decide_eq_true hown]
        exact hactive
      · rw [decide_eq_false (Nat.not_lt.mpr hother)]
        change (v.distributor.shared.active &&& ~~~bit _).getLsbD _
        rw [BitVec.getLsbD_and, BitVec.getLsbD_not, getLsbD_bit hi, hactive,
          decide_eq_false (by omega : ¬ id - 32 = (word &&& 1023).toNat % 32), decide_eq_true hi]
        rfl
    · exact hactive
  | pending banked clear word => cases banked <;> exact .inr hactive
  | active banked clear word haddress hvalue hbytes hr =>
    subst hvalue hbytes
    cases banked with
    | true => exact .inr hactive
    | false =>
      obtain ⟨result, rfl⟩ := Option.ne_none_iff_exists'.mp hr
      change _ ∨ (View.writeBits clear (some word) v.distributor.shared.active).getLsbD _
      rw [View.getLsbD_writeBits hi, hactive]
      cases clear with
      | false => exact .inr (by simp)
      | true =>
        cases hword : word.getLsbD (id - 32) with
        | true => exact .inl ⟨cpu, address, word, result, rfl, .inr ⟨haddress, hword⟩⟩
        | false => exact .inr rfl

theorem step_keeps_active {s : Gic} {call : Call} {id : ℕ} (h : s.Active id) :
    Deactivates (call, (s.step call).1) id ∨ (s.step call).2.Active id := by
  obtain ⟨hshared, hlt, hactive⟩ := h
  cases call with
  | access cpu address value bytes =>
    have heffect := (s.view cpu).access_effect cpu address value bytes
    exact (access_keeps_active heffect hshared hlt hactive).imp_right fun h => ⟨hshared, hlt, h⟩
  | level id asserted =>
    refine .inr ⟨hshared, hlt, ?_⟩
    rw [step]
    split
    · cases asserted <;> exact hactive
    · exact hactive
  | localLevel cpu id asserted =>
    refine .inr ⟨hshared, hlt, ?_⟩
    rw [step]
    split <;> exact hactive
  | sgi target id source =>
    refine .inr ⟨hshared, hlt, ?_⟩
    rw [step]
    split <;> exact hactive

/-- The access that acknowledges. -/
theorem access_acknowledge {v : View} {cpu : ℕ} (hcpu : cpu < v.distributor.cpus) :
    v.access cpu 0x0801000c none 4 = (some (v.acknowledge cpu).1, (v.acknowledge cpu).2) := by
  rw [View.access, if_neg (by simp [hcpu])]
  rfl

/-- There is nothing to access for a CPU the controller does not have. -/
theorem access_refused {v : View} {cpu address bytes : ℕ} {value : Option (BitVec 32)}
    (hcpu : ¬ cpu < v.distributor.cpus) : v.access cpu address value bytes = (none, v) := by
  rw [View.access, if_pos (.inr (.inr (Nat.not_lt.mp hcpu)))]

/-- Between two acknowledgements of a shared interrupt it is deactivated, and an acknowledgement
gives the best interrupt there is for the CPU, if the controller and the CPU's interface are
enabled. -/
theorem acknowledge_exact (s : Gic) (calls : List Call) :
    Exclusive (fun entry id => Acknowledges entry id ∧ 32 ≤ id ∧ id < 64) Deactivates
      (run step s calls).1 ∧
    ∀ (t : Gic) (cpu : ℕ), cpu < t.distributor.cpus →
      ∃ word, (t.step (.access cpu 0x0801000c none 4)).1 = .value (some word) ∧
        if t.distributor.enabled && (t.cpus cpu).enabled then
          (t.view cpu).Best cpu (word &&& 1023).toNat ∨
            (∀ id, ¬ (t.view cpu).Deliverable cpu id) ∧ word = 1023
        else word = 1023 := by
  constructor
  · have hkeep : ∀ (t : Gic) (call : Call) (id : ℕ), True → t.Active id →
        Deactivates (call, (t.step call).1) id ∨ (t.step call).2.Active id :=
      fun t call id _ => step_keeps_active
    refine run_exclusive (I := fun _ => True) trivial (fun _ _ _ => trivial) ?_ hkeep calls
    rintro t call id - ⟨⟨cpu, word, hentry, hid⟩, hshared, hlt⟩
    obtain ⟨rfl, hreply⟩ := Prod.mk.inj hentry
    have hcpu : cpu < (t.view cpu).distributor.cpus := by
      by_contra hcpu
      rw [step, access_refused hcpu] at hreply
      cases hreply
    have hnext := (t.view cpu).acknowledge_id hcpu
    rw [step, access_acknowledge hcpu] at hreply ⊢
    obtain rfl := Option.some.inj (Reply.value.inj hreply)
    obtain rfl : (t.view cpu).next cpu = id := hnext.symm.trans hid
    obtain ⟨hbefore, hafter⟩ := View.acknowledge_shared hcpu hshared hlt
    exact ⟨fun hheld => hbefore hheld.2.2, hshared, hlt, hafter⟩
  · intro t cpu hcpu
    have hcpu : cpu < (t.view cpu).distributor.cpus := hcpu
    refine ⟨((t.view cpu).acknowledge cpu).1, by rw [step, access_acknowledge hcpu], ?_⟩
    have hspec := View.next_spec hcpu
    have hid := View.acknowledge_id hcpu
    rw [hid]
    have hnone : (t.view cpu).next cpu = 1023 → ((t.view cpu).acknowledge cpu).1 = 1023 := by
      intro h
      rw [View.acknowledge_none h]
    by_cases hon : (t.distributor.enabled && (t.cpus cpu).enabled) = true
    · rw [if_pos hon]
      exact ((if_pos hon).mp hspec).imp_right fun h => ⟨h.1, hnone h.2⟩
    · rw [if_neg hon]
      exact hnone ((if_neg hon).mp hspec)

/-- An interrupt that is pending, enabled, inactive and within the mask is not given out while the
controller is disabled. -/
theorem disabled_gives_nothing :
    ∃ t : Gic, t = (run step (new 1 (by decide)) [.sgi 0 3 0, .access 0 0x08000100 (some 0xffff) 4,
        .access 0 0x08010004 (some 0xff) 4, .access 0 0x08010000 (some 1) 4]).2 ∧
      (t.view 0).Deliverable 0 3 ∧
      (t.step (.access 0 0x0801000c none 4)).1 = .value (some 1023) := by
  refine ⟨_, rfl, (View.deliverable_iff (by decide)).mp ⟨by decide, by decide⟩, by decide⟩

end Gic

end AegisHV.Vgic
