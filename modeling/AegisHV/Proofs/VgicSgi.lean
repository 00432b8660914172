import AegisHV.Lib.Op
import AegisHV.Proofs.Vgic

/-! Software-generated interrupts of the virtual controller: what is pending has a source, and each
one sent is acknowledged once, as long as the guest does not write their pending bits itself. -/

namespace AegisHV.Vgic
open Sys List

namespace View

/-- A software-generated interrupt is pending exactly if a source is recorded for it. -/
def Sourced (v : View) : Prop :=
  ∀ id < 16, v.own.bank.pending.getLsbD id ↔ v.own.sources id ≠ 0

/-- The value read says that this interrupt of this source was acknowledged. -/
def Gives (word : BitVec 32) (id source : ℕ) : Prop :=
  (word &&& 1023).toNat = id ∧ (word >>> 10).toNat = source

/-- What an access does to the software-generated interrupts of a CPU, if these are given out. -/
structure Keeps (v : View) (given : ℕ → ℕ → Prop) (v' : View) : Prop where
  sourced : v'.Sourced
  recorded : ∀ id < 16, ∀ source < 8, (v'.own.sources id).getLsbD source ↔
    (v.own.sources id).getLsbD source ∧ ¬ given id source
  given : ∀ id < 16, ∀ source, given id source → (v.own.sources id).getLsbD source

/-- The interface with the same software-generated interrupts pending, from the same sources. -/
structure SameSgi (c c' : Cpu) : Prop where
  pending : ∀ id < 16, c'.bank.pending.getLsbD id = c.bank.pending.getLsbD id
  sources : c'.sources = c.sources

theorem Sourced.of_same {v v' : View} (hv : v.Sourced) (h : SameSgi v.own v'.own) : v'.Sourced := by
  intro id hid
  rw [h.pending id hid, h.sources]
  exact hv id hid

theorem Keeps.of_same {v v' : View} {given : ℕ → ℕ → Prop} (hv : v.Sourced)
    (h : SameSgi v.own v'.own) (hnot : ∀ id < 16, ∀ source, ¬ given id source) :
    v.Keeps given v' := by
  refine ⟨hv.of_same h, fun id hid source _ => ?_, fun id hid source hg => ?_⟩
  · rw [h.sources, and_iff_left (hnot id hid source)]
  · exact absurd hg (hnot id hid source)

theorem source_of_sourced : ∀ id < 16, ∀ source < 8,
    ((BitVec.ofNat 32 id ||| (BitVec.ofNat 32 source <<< 10)) >>> 10).toNat = source := by decide

theorem getLsbD_clear {bits : BitVec 8} {source i : ℕ} (hi : i < 8) :
    (bits &&& ~~~(1#8 <<< source)).getLsbD i = (bits.getLsbD i && decide (i ≠ source)) := by
  rw [BitVec.getLsbD_and, BitVec.getLsbD_not, ← BitVec.twoPow_eq]
  by_cases heq : i = source
  · simp [hi]
  · simp [heq, Ne.symm heq, hi]

theorem takeSource_sources (v : View) (id source : ℕ) : (v.takeSource id source).own.sources =
    Function.update v.own.sources id (v.own.sources id &&& ~~~(1#8 <<< source)) := by
  rw [takeSource]
  split <;> rfl

theorem takeSource_pending (v : View) {id source i : ℕ} (hi : i < 16) :
    (v.takeSource id source).own.bank.pending.getLsbD i =
      (v.own.bank.pending.getLsbD i ||
        decide (i = id ∧ v.own.sources id &&& ~~~(1#8 <<< source) ≠ 0)) := by
  rw [takeSource]
  by_cases hleft : v.own.sources id &&& ~~~(1#8 <<< source) = 0
  · rw [hleft]
    simp
  · rw [if_pos (bne_iff_ne.mpr hleft)]
    change (v.own.bank.pending ||| bit id).getLsbD i = _
    rw [BitVec.getLsbD_or, getLsbD_bit (by omega)]
    congr 1
    exact decide_eq_decide.mpr ⟨fun h => ⟨h, hleft⟩, And.left⟩

theorem ne_zero_iff_exists {bits : BitVec 8} : bits ≠ 0 ↔ ∃ i < 8, bits.getLsbD i := by
  refine ⟨exists_getLsbD_of_ne_zero, ?_⟩
  rintro ⟨i, -, hbit⟩ rfl
  exact absurd (BitVec.getLsbD_zero.symm.trans hbit) Bool.false_ne_true

theorem take_pending (v : View) {id i : ℕ} (hid : id < 32) (hi : i < 16) :
    (v.withBank true (take id)).own.bank.pending.getLsbD i =
      (v.own.bank.pending.getLsbD i && decide (i ≠ id)) := by
  change (v.own.bank.pending &&& ~~~bit (id % 32)).getLsbD i = _
  rw [Nat.mod_eq_of_lt hid, BitVec.getLsbD_and, BitVec.getLsbD_not, getLsbD_bit (by omega),
    decide_eq_true (by omega : i < 32), Bool.true_and, decide_not]

/-- An acknowledgement of an interrupt that has a source takes the lowest one. -/
theorem acknowledge_keeps {v : View} {cpu : ℕ} (hcpu : cpu < v.distributor.cpus)
    (hv : v.Sourced) : v.Keeps (Gives (v.acknowledge cpu).1) (v.acknowledge cpu).2 := by
  have hid := acknowledge_id hcpu
  -- What is read tells of no software-generated interrupt unless one was picked.
  have hother : 16 ≤ v.next cpu → ∀ id < 16, ∀ source, ¬ Gives (v.acknowledge cpu).1 id source := by
    rintro hge id hlt source ⟨heq, -⟩
    omega
  by_cases hnone : v.next cpu = 1023
  · rw [acknowledge_none hnone] at hother ⊢
    exact .of_same hv ⟨fun _ _ => rfl, rfl⟩ (hother (by omega))
  have hbest := (next_lt_or hcpu hnone).1
  rcases Nat.lt_or_ge (v.next cpu) 16 with hlt | hge
  · have hown : decide (v.next cpu < 32) = true := decide_eq_true (by omega)
    have hpending := hbest.pending
    rw [hown, Nat.mod_eq_of_lt (by omega)] at hpending
    have hsource := (hv _ hlt).mp hpending
    obtain ⟨htz, hbit⟩ := trailingZeros_spec hsource
    rw [acknowledge_sourced hnone ⟨hlt, hsource⟩, hown]
    generalize v.next cpu = id at hlt hsource htz hbit
    generalize hz : trailingZeros (v.own.sources id) = z at htz hbit
    have hgives : ∀ i source, Gives (BitVec.ofNat 32 id ||| (BitVec.ofNat 32 z <<< 10)) i source ↔
        id = i ∧ z = source := by
      intro i source
      rw [Gives, id_of_sourced id hlt z htz, source_of_sourced id hlt z htz]
    have hsources : ∀ i, ((v.withBank true (take id)).takeSource id z).own.sources i =
        if i = id then v.own.sources id &&& ~~~(1#8 <<< z) else v.own.sources i := by
      intro i
      rw [takeSource_sources, withBank_sources, Function.update_apply]
    refine ⟨fun i hi => ?_, fun i hi source hsrc => ?_, fun i hi source h => ?_⟩
    · rw [takeSource_pending _ hi, take_pending _ (by omega) hi, hsources]
      by_cases heq : i = id
      · simp [heq]
      · simpa [heq] using hv i hi
    · rw [hsources, hgives]
      by_cases heq : i = id
      · subst heq
        rw [if_pos rfl, getLsbD_clear hsrc, Bool.and_eq_true, decide_eq_true_eq]
        exact and_congr_right fun _ => ⟨fun hne h => hne h.2.symm, fun hne h => hne ⟨rfl, h.symm⟩⟩
      · rw [if_neg heq]
        exact ⟨fun h => ⟨h, fun h' => heq h'.1.symm⟩, And.left⟩
    · obtain ⟨rfl, rfl⟩ := (hgives i source).mp h
      exact hbit
  · have hplain : ¬ (v.next cpu < 16 ∧ v.own.sources (v.next cpu) ≠ 0) := by omega
    rw [acknowledge_plain hnone hplain] at hother ⊢
    refine .of_same hv ⟨fun i hi => ?_, withBank_sources v _ _⟩ (hother hge)
    rcases Nat.lt_or_ge (v.next cpu) 32 with hown | hshared
    · rw [decide_eq_true hown, take_pending v hown hi, decide_eq_true (by omega : i ≠ v.next cpu),
        Bool.and_true]
    · rw [decide_eq_false (Nat.not_lt.mpr hshared)]
      rfl

/-- The write changes the pending bit of a software-generated interrupt: it sets one that is not
pending, or clears one that is. -/
def Rewrites (v : View) (address : ℕ) (word : BitVec 32) : Prop :=
  ∃ id < 16, word.getLsbD id ∧ (address = 0x08000200 ∧ ¬ v.own.bank.pending.getLsbD id ∨
    address = 0x08000280 ∧ v.own.bank.pending.getLsbD id)

theorem sameSgi_withBank (v : View) (banked : Bool) {f : Bank → Bank}
    (hpending : ∀ bank, (f bank).pending = bank.pending) :
    SameSgi v.own (v.withBank banked f).own := by
  cases banked with
  | false => exact ⟨fun _ _ => rfl, rfl⟩
  | true => exact ⟨fun id _ => by rw [withBank, if_pos rfl, hpending], rfl⟩

/-- A write of pending bits that changes none of a software-generated interrupt. -/
theorem sameSgi_pending {v : View} {address : ℕ} {word : BitVec 32} (banked clear : Bool)
    (haddress : address = 0x08000200 + (if clear then 0x80 else 0) + if banked then 0 else 4)
    (hnot : ¬ v.Rewrites address word) :
    SameSgi v.own (v.withBank banked (setPending (writeBits clear (some word)))).own := by
  refine ⟨fun id hid => ?_, withBank_sources v _ _⟩
  cases banked with
  | false => rfl
  | true =>
    change (writeBits clear (some word) v.own.bank.pending).getLsbD id = _
    rw [getLsbD_writeBits (by omega)]
    cases hword : word.getLsbD id with
    | false => cases clear <;> simp
    | true =>
      cases clear with
      | false =>
        have hset : v.own.bank.pending.getLsbD id = true := by
          by_contra hunset
          exact hnot ⟨id, hid, hword, .inl ⟨haddress, hunset⟩⟩
        simp [hset]
      | true =>
        have hunset : v.own.bank.pending.getLsbD id = false := by
          by_contra hset
          exact hnot ⟨id, hid, hword, .inr ⟨haddress, by simpa using hset⟩⟩
        simp [hunset]

theorem sameSgi_deactivate (v : View) (word : BitVec 32) : SameSgi v.own (v.deactivate word).own := by
  rw [deactivate]
  split
  · exact sameSgi_withBank v _ fun _ => rfl
  · exact ⟨fun _ _ => rfl, rfl⟩

end View

/-- The interrupt was sent by the source to the target. -/
def Sent (entry : Call × Reply) (target id source : ℕ) : Prop :=
  entry = (.sgi target id source, .done)

/-- The target acknowledged the interrupt with this source. -/
def Acked (entry : Call × Reply) (target id source : ℕ) : Prop :=
  ∃ word, entry = (.access target 0x0801000c none 4, .value (some word)) ∧
    View.Gives word id source

/-- The target cleared the pending bit of the interrupt. -/
def Cleared (entry : Call × Reply) (target id : ℕ) : Prop :=
  ∃ word result, entry = (.access target 0x08000280 (some word) 4, .value (some result)) ∧
    word.getLsbD id

/-- The interrupt was sent, and since then neither acknowledged nor cleared. -/
def Outstanding (log : List (Call × Reply)) (target id source : ℕ) : Prop :=
  ∃ before entry after, log = before ++ entry :: after ∧ Sent entry target id source ∧
    ∀ later ∈ after, ¬ Acked later target id source ∧ ¬ Cleared later target id

theorem outstanding_concat {log : List (Call × Reply)} {entry : Call × Reply}
    {target id source : ℕ} : Outstanding (log ++ [entry]) target id source ↔
      Sent entry target id source ∨ Outstanding log target id source ∧
        ¬ Acked entry target id source ∧ ¬ Cleared entry target id := by
  constructor
  · rintro ⟨before, sent, after, hlog, hsent, hafter⟩
    rcases eq_nil_or_concat' after with rfl | ⟨after, last, rfl⟩
    · obtain ⟨-, hlast⟩ := append_inj' hlog rfl
      obtain rfl := singleton_injective hlast
      exact .inl hsent
    · rw [← cons_append, ← append_assoc] at hlog
      obtain ⟨rfl, hlast⟩ := append_inj' hlog rfl
      obtain rfl := singleton_injective hlast
      refine .inr ⟨⟨before, sent, after, rfl, hsent, fun later hl => ?_⟩, ?_⟩
      · exact hafter later (mem_append_left _ hl)
      · exact hafter entry (mem_append_right _ mem_cons_self)
  · rintro (hsent | ⟨⟨before, sent, after, rfl, hsent, hafter⟩, hentry⟩)
    · exact ⟨log, entry, [], rfl, hsent, fun _ h => absurd h not_mem_nil⟩
    · refine ⟨before, sent, after ++ [entry], by simp, hsent, ?_⟩
      exact forall_mem_concat hafter hentry

namespace Gic

/-- A guest write that changes the pending bit of a software-generated interrupt. -/
def Touches (s : Gic) (call : Call) : Prop :=
  ∃ cpu address word, call = .access cpu address (some word) 4 ∧ cpu < s.distributor.cpus ∧
    (s.view cpu).Rewrites address word

/-- On every CPU, what is pending has a source. -/
def Sourced (s : Gic) : Prop := ∀ cpu, (s.view cpu).Sourced

/-- The source is recorded for the interrupt on the target. -/
def Recorded (s : Gic) (target id source : ℕ) : Prop :=
  ((s.cpus target).sources id).getLsbD source

/-- What is recorded is what is outstanding. -/
structure Tracked (log : List (Call × Reply)) (s : Gic) : Prop where
  sourced : s.Sourced
  recorded : ∀ target, ∀ id < 16, ∀ source < 8,
    s.Recorded target id source ↔ Outstanding log target id source

theorem tracked_new (cpus : ℕ) (h : 0 < cpus ∧ cpus ≤ 8) : Tracked [] (new cpus h) := by
  refine ⟨fun cpu id _ => ?_, fun target id _ source _ => ?_⟩
  · simp [view, new, Cpu.new, Bank.new]
  · refine iff_of_false ?_ ?_
    · simp [Recorded, new, Cpu.new]
    · rintro ⟨before, entry, after, hlog, -⟩
      exact append_ne_nil_of_right_ne_nil before (cons_ne_nil entry after) hlog.symm

/-- What a call does to the software-generated interrupts: one that is recorded afterwards was
sent by it, or was recorded before and is not acknowledged by it. -/
structure Moves (s : Gic) (entry : Call × Reply) (t : Gic) : Prop where
  sourced : t.Sourced
  recorded : ∀ target, ∀ id < 16, ∀ source < 8, t.Recorded target id source ↔
    Sent entry target id source ∨ s.Recorded target id source ∧ ¬ Acked entry target id source
  acked : ∀ target, ∀ id < 16, ∀ source, Acked entry target id source →
    s.Recorded target id source

theorem not_acked {call : Call} {reply : Reply} (h : ∀ cpu, call ≠ .access cpu 0x0801000c none 4)
    (target id source : ℕ) : ¬ Acked (call, reply) target id source := by
  rintro ⟨word, hentry, -⟩
  exact h _ (Prod.mk.inj hentry).1

/-- A call that neither acknowledges nor sends leaves the software-generated interrupts. -/
theorem Moves.of_same {s t : Gic} {call : Call} {reply : Reply} (h : s.Sourced)
    (hsame : ∀ cpu, View.SameSgi (s.cpus cpu) (t.cpus cpu))
    (hack : ∀ cpu, call ≠ .access cpu 0x0801000c none 4)
    (hsent : ∀ target id source, ¬ Sent (call, reply) target id source) :
    Moves s (call, reply) t := by
  refine ⟨fun cpu => (h cpu).of_same (hsame cpu), fun target id _ source _ => ?_,
    fun target id _ source hacked => absurd hacked (not_acked hack target id source)⟩
  rw [Recorded, (hsame target).sources, or_iff_right (hsent target id source),
    and_iff_left (not_acked hack target id source)]
  rfl

theorem getLsbD_level {bank : Bank} {id i : ℕ} {asserted : Bool} (hi : i < 32) (hne : i ≠ id) :
    (bank.level id asserted).pending.getLsbD i = bank.pending.getLsbD i := by
  cases asserted
  · change (bank.pending &&& ~~~bit id).getLsbD i = _
    rw [BitVec.getLsbD_and, BitVec.getLsbD_not, getLsbD_bit hi, decide_eq_true hi,
      decide_eq_false hne, Bool.not_false, Bool.and_true, Bool.and_true]
  · change (bank.pending ||| bit id).getLsbD i = _
    rw [BitVec.getLsbD_or, getLsbD_bit hi, decide_eq_false hne, Bool.or_false]

theorem access_keeps {v : View} {cpu address bytes : ℕ} {value : Option (BitVec 32)}
    {out : Option (BitVec 32) × View} (h : v.Effect cpu address value bytes out) (hv : v.Sourced)
    (hnot : ∀ word, value = some word → bytes = 4 → cpu < v.distributor.cpus →
      ¬ v.Rewrites address word) :
    v.Keeps (Acked (.access cpu address value bytes, .value out.1) cpu) out.2 := by
  have hwrite : ∀ {word r}, value = some word → ∀ id < 16, ∀ source,
      ¬ Acked (.access cpu address value bytes, .value r) cpu id source := by
    rintro word r rfl id - source
    exact not_acked (by simp) cpu id source
  cases h with
  | @same r v' hsame hno =>
    refine .of_same hv ⟨fun id _ => by rw [hsame.pending], hsame.sources⟩ ?_
    rintro id - source ⟨word, hentry, -⟩
    obtain ⟨hcall, hreply⟩ := Prod.mk.inj hentry
    obtain ⟨-, haddress, hvalue, hbytes⟩ := Call.access.inj hcall
    rw [hno haddress hvalue hbytes] at hreply
    cases hreply
  | acknowledged haddress hvalue hbytes hcpu =>
    have hacked : Acked (.access cpu address value bytes, .value (some (v.acknowledge cpu).1)) cpu =
        View.Gives (v.acknowledge cpu).1 := by
      funext id source
      simp [Acked, haddress, hvalue, hbytes]
    rw [hacked]
    exact View.acknowledge_keeps hcpu hv
  | deactivated word _ hvalue => exact .of_same hv (v.sameSgi_deactivate word) (hwrite hvalue)
  | pending banked clear word haddress hvalue hbytes hcpu =>
    exact .of_same hv (View.sameSgi_pending banked clear haddress (hnot word hvalue hbytes hcpu))
      (hwrite hvalue)
  | active banked clear word _ hvalue =>
    exact .of_same hv (v.sameSgi_withBank banked fun _ => rfl) (hwrite hvalue)

theorem put_cpus (s : Gic) (cpu : ℕ) (v : View) (target : ℕ) :
    (s.put cpu v).cpus target = if target = cpu then v.own else s.cpus target :=
  Function.update_apply s.cpus cpu v.own target

/-- What the guest clears was not pending, if it does not touch what is. -/
theorem not_recorded_of_cleared {s : Gic} (h : s.Sourced) {call : Call} (hnot : ¬ s.Touches call)
    {target id : ℕ} (hid : id < 16) (hcleared : Cleared (call, (s.step call).1) target id)
    (source : ℕ) : ¬ s.Recorded target id source := by
  obtain ⟨word, result, hentry, hword⟩ := hcleared
  obtain ⟨rfl, hreply⟩ := Prod.mk.inj hentry
  have hcpu : target < (s.view target).distributor.cpus := by
    by_contra hcpu
    rw [step, access_refused hcpu] at hreply
    cases hreply
  have hunset : ¬ (s.view target).own.bank.pending.getLsbD id := fun hset =>
    hnot ⟨target, _, word, rfl, hcpu, id, hid, hword, .inr ⟨rfl, hset⟩⟩
  have hzero : (s.cpus target).sources id = 0 :=
    not_not.mp fun hne => hunset ((h target id hid).mpr hne)
  rw [Recorded, hzero]
  exact fun hbit => absurd (BitVec.getLsbD_zero.symm.trans hbit) Bool.false_ne_true

theorem access_moves {s : Gic} (h : s.Sourced) {cpu address bytes : ℕ}
    {value : Option (BitVec 32)} (hnot : ¬ s.Touches (.access cpu address value bytes)) :
    Moves s (.access cpu address value bytes, (s.step (.access cpu address value bytes)).1)
      (s.step (.access cpu address value bytes)).2 := by
  have hkeeps := access_keeps ((s.view cpu).access_effect cpu address value bytes) (h cpu)
    fun word hvalue hbytes hcpu hrewrites =>
      hnot ⟨cpu, address, word, by rw [hvalue, hbytes], hcpu, hrewrites⟩
  rw [step]
  generalize (s.view cpu).access cpu address value bytes = out at hkeeps ⊢
  have hown : ∀ {target id source},
      Acked (.access cpu address value bytes, .value out.1) target id source → target = cpu := by
    rintro target id source ⟨word, hentry, -⟩
    exact (Call.access.inj (Prod.mk.inj hentry).1).1.symm
  refine ⟨fun target => ?_, fun target id hid source hsource => ?_, ?_⟩
  · by_cases heq : target = cpu
    · subst heq
      exact hkeeps.sourced.of_same ⟨fun _ _ => by rw [view, put_cpus, if_pos rfl],
        by rw [view, put_cpus, if_pos rfl]⟩
    · exact (h target).of_same ⟨fun _ _ => by rw [view, put_cpus, if_neg heq]; rfl,
        by rw [view, put_cpus, if_neg heq]; rfl⟩
  · have hsent : ¬ Sent (.access cpu address value bytes, .value out.1) target id source :=
      fun hsent => by cases (Prod.mk.inj hsent).1
    rw [or_iff_right hsent, Recorded, put_cpus]
    by_cases heq : target = cpu
    · subst heq
      rw [if_pos rfl]
      exact hkeeps.recorded id hid source hsource
    · rw [if_neg heq]
      exact ⟨fun hrec => ⟨hrec, fun hacked => heq (hown hacked)⟩, And.left⟩
  · intro target id hid source hacked
    obtain rfl := hown hacked
    exact hkeeps.given id hid source hacked

theorem getLsbD_send {bits : BitVec 8} {source i : ℕ} (hi : i < 8) :
    (bits ||| 1#8 <<< source).getLsbD i = (bits.getLsbD i || decide (i = source)) := by
  rw [BitVec.getLsbD_or, ← BitVec.twoPow_eq]
  by_cases heq : i = source
  · simp [hi]
  · simp [heq, Ne.symm heq]

theorem sgi_moves {s : Gic} (h : s.Sourced) {target id source : ℕ} (hvalid : id < 16 ∧ source < 8) :
    Moves s (.sgi target id source, .done) (s.step (.sgi target id source)).2 := by
  have hcpus : ∀ cpu, ((s.step (.sgi target id source)).2.cpus cpu) =
      if cpu = target then { s.cpus target with
        sources := Function.update (s.cpus target).sources id
          ((s.cpus target).sources id ||| 1#8 <<< source)
        bank := { (s.cpus target).bank with
          pending := (s.cpus target).bank.pending ||| bit id } }
      else s.cpus cpu := by
    intro cpu
    rw [step, if_pos hvalid]
    exact Function.update_apply _ _ _ _
  have hacked := @not_acked (.sgi target id source) .done (by simp)
  refine ⟨fun cpu => ?_, fun cpu i _ src hsrc => ?_, fun t i _ src ha => absurd ha (hacked t i src)⟩
  · by_cases heq : cpu = target
    · subst heq
      intro i hi
      change ((s.step (.sgi cpu id source)).2.cpus cpu).bank.pending.getLsbD i ↔
        ((s.step (.sgi cpu id source)).2.cpus cpu).sources i ≠ 0
      rw [hcpus, if_pos rfl]
      dsimp only
      rw [BitVec.getLsbD_or, getLsbD_bit (by omega), Function.update_apply]
      by_cases hid : i = id
      · rw [if_pos hid, decide_eq_true hid, Bool.or_true]
        refine iff_of_true rfl (View.ne_zero_iff_exists.mpr ⟨source, hvalid.2, ?_⟩)
        rw [getLsbD_send hvalid.2, decide_eq_true rfl, Bool.or_true]
      · rw [if_neg hid, decide_eq_false hid, Bool.or_false]
        exact h cpu i hi
    · exact (h cpu).of_same ⟨fun _ _ => by rw [view, hcpus, if_neg heq]; rfl,
        by rw [view, hcpus, if_neg heq]; rfl⟩
  · have hsent : Sent (.sgi target id source, .done) cpu i src ↔
        cpu = target ∧ i = id ∧ src = source := by simp [Sent, eq_comm]
    rw [hsent, and_iff_left (hacked cpu i src), Recorded, Recorded, hcpus]
    by_cases heq : cpu = target
    · rw [if_pos heq]
      dsimp only
      rw [Function.update_apply]
      by_cases hid : i = id
      · rw [if_pos hid, getLsbD_send hsrc]
        simp [heq, hid, or_comm]
      · simp [heq, hid]
    · simp [heq]

/-- One call that does not touch pending bits. -/
theorem step_moves {s : Gic} (h : s.Sourced) {call : Call} (hnot : ¬ s.Touches call) :
    Moves s (call, (s.step call).1) (s.step call).2 := by
  cases call with
  | access cpu address value bytes => exact access_moves h hnot
  | level line asserted =>
    refine .of_same h (fun cpu => ?_) (by simp) (by simp [Sent])
    rw [step]
    split <;> exact ⟨fun _ _ => rfl, rfl⟩
  | localLevel cpu line asserted =>
    refine .of_same h (fun c => ?_) (by simp) (by simp [Sent])
    rw [step]
    split_ifs with hline
    · by_cases heq : c = cpu
      · subst heq
        refine ⟨fun i hi => ?_, ?_⟩ <;> dsimp only <;> rw [Function.update_self]
        exact getLsbD_level (by omega) (by omega)
      · refine ⟨fun i hi => ?_, ?_⟩ <;> dsimp only <;> rw [Function.update_of_ne heq]
    · exact ⟨fun _ _ => rfl, rfl⟩
  | sgi target id source =>
    by_cases hvalid : id < 16 ∧ source < 8
    · have hmoves := @sgi_moves s h target id source hvalid
      rwa [show (s.step (.sgi target id source)).1 = .done by rw [step, if_pos hvalid]]
    · rw [step, if_neg hvalid]
      exact .of_same h (fun _ => ⟨fun _ _ => rfl, rfl⟩) (by simp) (by simp [Sent])

theorem Tracked.step {log : List (Call × Reply)} {s : Gic} (h : Tracked log s) {call : Call}
    (hnot : ¬ s.Touches call) : Tracked (log ++ [(call, (s.step call).1)]) (s.step call).2 := by
  have hm := step_moves h.sourced hnot
  refine ⟨hm.sourced, fun target id hid source hsource => ?_⟩
  rw [hm.recorded target id hid source hsource, outstanding_concat,
    ← h.recorded target id hid source hsource]
  refine or_congr_right ⟨fun hrec => ⟨hrec.1, hrec.2, fun hclear => ?_⟩,
    fun hrec => ⟨hrec.1, hrec.2.1⟩⟩
  exact not_recorded_of_cleared h.sourced hnot hid hclear source hrec.1

/-- The write that sets or clears pending bits of the CPU's own bank. -/
theorem access_pending {v : View} {cpu : ℕ} (hcpu : cpu < v.distributor.cpus) (clear : Bool)
    (word : BitVec 32) :
    (v.access cpu (if clear then 0x08000280 else 0x08000200) (some word) 4).2 =
      v.withBank true (View.setPending (View.writeBits clear (some word))) := by
  cases clear <;> rw [View.access, if_neg (by simp [hcpu])] <;> rfl

/-- After a write that touches a pending bit, that bit and the sources disagree. -/
theorem not_sourced_of_touches {s : Gic} (h : s.Sourced) {call : Call} (ht : s.Touches call) :
    ¬ (s.step call).2.Sourced := by
  obtain ⟨cpu, address, word, rfl, hcpu, id, hid, hword, hbit⟩ := ht
  intro hafter
  have hafter := hafter cpu id hid
  have hbefore := h cpu id hid
  change ((s.put cpu _).cpus cpu).bank.pending.getLsbD id ↔ ((s.put cpu _).cpus cpu).sources id ≠ 0
    at hafter
  rw [put_cpus, if_pos rfl] at hafter
  have hcpu : cpu < (s.view cpu).distributor.cpus := hcpu
  rcases hbit with ⟨rfl, hunset⟩ | ⟨rfl, hset⟩
  · have hwrite := access_pending hcpu false word
    rw [if_neg Bool.false_ne_true] at hwrite
    rw [hwrite, View.withBank_sources] at hafter
    change (View.writeBits false (some word) (s.view cpu).own.bank.pending).getLsbD id ↔ _ at hafter
    rw [View.getLsbD_writeBits (by omega), hword, ← hbefore] at hafter
    exact hunset (hafter.mp (by simp))
  · have hwrite := access_pending hcpu true word
    rw [if_pos rfl] at hwrite
    rw [hwrite, View.withBank_sources] at hafter
    change (View.writeBits true (some word) (s.view cpu).own.bank.pending).getLsbD id ↔ _ at hafter
    rw [View.getLsbD_writeBits (by omega), hword, ← hbefore] at hafter
    exact absurd (hafter.mpr hset) (by simp)

theorem tracked_run {s₀ : Gic} (h₀ : Tracked [] s₀) {calls : List Call} :
    AllSteps (fun s call => ¬ s.Touches call) step s₀ calls →
      Tracked (run step s₀ calls).1 (run step s₀ calls).2 := by
  induction calls using List.reverseRecOn with
  | nil => exact fun _ => h₀
  | append_singleton calls call ih =>
    intro hall
    obtain ⟨hcalls, hcall⟩ := allSteps_concat.mp hall
    rw [run_concat]
    exact (ih hcalls).step hcall

end Gic

end AegisHV.Vgic
