import FlowPack.Container.Relocation
import FlowPack.Proofs.Words

namespace FlowPack

open Script (Pointer)

/-- Two pointers do not both refer to strings, or their slots do not overlap. -/
def Apart (p q : Pointer) : Prop :=
  p.kind = .stringRef → q.kind = .stringRef →
    p.offset.toNat + 4 ≤ q.offset.toNat ∨ q.offset.toNat + 4 ≤ p.offset.toNat

instance (p q : Pointer) : Decidable (Apart p q) :=
  inferInstanceAs (Decidable (_ → _ → _ ∨ _))

variable {base : UInt32} {flow : Bytes}

theorem relocateOne_eq_ok_iff {p : Pointer} {flow' : Bytes} :
    relocateOne base flow p = .ok flow' ↔
      ∃ v, Word.at? flow p.offset.toNat = some v ∧ base ≤ v ∧
        flow' = Word.put flow p.offset.toNat (v - base) := by
  unfold relocateOne
  cases hv : Word.at? flow p.offset.toNat with
  | none => simp
  | some v =>
    by_cases hlt : v < base
    · simp [hlt, UInt32.not_le.mpr hlt]
    · simp [hlt, UInt32.not_lt.mp hlt, eq_comm]

section Step

variable {p : Pointer} (ps : List Pointer)

theorem relocateFrom_of_ne (hk : p.kind ≠ .stringRef) :
    relocateFrom base flow (p :: ps) = relocateFrom base flow ps := by
  rw [relocateFrom, if_neg hk]

theorem relocateFrom_of_ok {flow' : Bytes} (hk : p.kind = .stringRef)
    (ho : relocateOne base flow p = .ok flow') :
    relocateFrom base flow (p :: ps) = relocateFrom base flow' ps := by
  rw [relocateFrom, if_pos hk, ho]

theorem relocateFrom_of_error {e : RelocationError} (hk : p.kind = .stringRef)
    (ho : relocateOne base flow p = .error e) :
    relocateFrom base flow (p :: ps) = (flow, some e) := by
  rw [relocateFrom, if_pos hk, ho]

end Step

theorem length_relocateFrom (ps : List Pointer) :
    (relocateFrom base flow ps).1.length = flow.length := by
  induction ps generalizing flow with
  | nil => rfl
  | cons p ps ih =>
    by_cases hk : p.kind = .stringRef
    · cases ho : relocateOne base flow p with
      | error e => rw [relocateFrom_of_error ps hk ho]
      | ok flow' =>
        obtain ⟨v, hv, -, rfl⟩ := relocateOne_eq_ok_iff.mp ho
        rw [relocateFrom_of_ok ps hk ho]
        exact ih.trans (Word.length_put _ (Word.le_length_of_at? hv))
    · rw [relocateFrom_of_ne ps hk]
      exact ih

/-- Whatever the outcome, a byte outside the slots of string references stays. A slot that does not
lie in the stream is never written. -/
theorem getElem?_relocateFrom_of_fits {ps : List Pointer} {i : Nat}
    (h : ∀ p ∈ ps, p.kind = .stringRef → p.offset.toNat + 4 ≤ flow.length →
      i < p.offset.toNat ∨ p.offset.toNat + 4 ≤ i) :
    (relocateFrom base flow ps).1[i]? = flow[i]? := by
  induction ps generalizing flow with
  | nil => rfl
  | cons p ps ih =>
    have hrest := fun q hq => h q (List.mem_cons_of_mem p hq)
    by_cases hk : p.kind = .stringRef
    · cases ho : relocateOne base flow p with
      | error e => rw [relocateFrom_of_error ps hk ho]
      | ok flow' =>
        obtain ⟨v, hv, -, rfl⟩ := relocateOne_eq_ok_iff.mp ho
        have hle := Word.le_length_of_at? hv
        have hp := h p List.mem_cons_self hk hle
        rw [← Word.length_put (v - base) hle] at hrest
        rw [relocateFrom_of_ok ps hk ho]
        exact (ih hrest).trans (Word.getElem?_put_of_outside _ hle hp)
    · rw [relocateFrom_of_ne ps hk]
      exact ih hrest

theorem getElem?_relocateFrom {ps : List Pointer} {i : Nat}
    (h : ∀ p ∈ ps, p.kind = .stringRef → i < p.offset.toNat ∨ p.offset.toNat + 4 ≤ i) :
    (relocateFrom base flow ps).1[i]? = flow[i]? :=
  getElem?_relocateFrom_of_fits fun p hp hs _ => h p hp hs

theorem at?_put_of_pairwise {p : Pointer} {ps : List Pointer} {v w : UInt32}
    (hv : Word.at? flow p.offset.toNat = some v) (hk : p.kind = .stringRef)
    (hd : ∀ q ∈ ps, Apart p q) :
    ∀ q ∈ ps, q.kind = .stringRef →
      Word.at? (Word.put flow p.offset.toNat w) q.offset.toNat = Word.at? flow q.offset.toNat :=
  fun q hq hs => Word.at?_put_of_apart w (Word.le_length_of_at? hv) (hd q hq hk hs)

theorem relocateFrom_eq_none_iff {ps : List Pointer} (hd : ps.Pairwise Apart) :
    (relocateFrom base flow ps).2 = none ↔
      ∀ p ∈ ps, p.kind = .stringRef → ∃ v, Word.at? flow p.offset.toNat = some v ∧ base ≤ v := by
  induction ps generalizing flow with
  | nil => simp [relocateFrom]
  | cons p ps ih =>
    obtain ⟨hp, hps⟩ := List.pairwise_cons.mp hd
    rw [List.forall_mem_cons]
    by_cases hk : p.kind = .stringRef
    · cases ho : relocateOne base flow p with
      | error e =>
        have hno : ¬ ∃ v, Word.at? flow p.offset.toNat = some v ∧ base ≤ v := by
          rintro ⟨v, hv, hb⟩
          rw [relocateOne_eq_ok_iff.mpr ⟨v, hv, hb, rfl⟩] at ho
          cases ho
        simp [relocateFrom_of_error ps hk ho, hk, hno]
      | ok flow' =>
        obtain ⟨v, hv, hb, rfl⟩ := relocateOne_eq_ok_iff.mp ho
        have hkept := at?_put_of_pairwise (w := v - base) hv hk hp
        have hfirst : p.kind = .stringRef →
            ∃ v, Word.at? flow p.offset.toNat = some v ∧ base ≤ v := fun _ => ⟨v, hv, hb⟩
        rw [relocateFrom_of_ok ps hk ho, ih hps]
        constructor
        · intro h
          refine ⟨hfirst, fun q hq hs => ?_⟩
          rw [← hkept q hq hs]
          exact h q hq hs
        · rintro ⟨-, h⟩ q hq hs
          rw [hkept q hq hs]
          exact h q hq hs
    · rw [relocateFrom_of_ne ps hk, ih hps]
      simp [hk]

/-- Change the value in the slot of every string reference. A slot that does not lie in the stream
is passed over. -/
def rewriteSlots (g : UInt32 → UInt32) (flow : Bytes) : List Pointer → Bytes
  | [] => flow
  | p :: rest =>
    if p.kind = .stringRef then
      match Word.at? flow p.offset.toNat with
      | some v => rewriteSlots g (Word.put flow p.offset.toNat (g v)) rest
      | none => rewriteSlots g flow rest
    else rewriteSlots g flow rest

structure Rewritten (r : UInt32 → UInt32 → Prop) (flow : Bytes) (ps : List Pointer)
    (code : Bytes) : Prop where
  length : code.length = flow.length
  slot : ∀ p ∈ ps, p.kind = .stringRef → ∃ v w, Word.at? flow p.offset.toNat = some v ∧
    Word.at? code p.offset.toNat = some w ∧ r v w
  other : ∀ i, (∀ p ∈ ps, p.kind = .stringRef → i < p.offset.toNat ∨ p.offset.toNat + 4 ≤ i) →
    code[i]? = flow[i]?

namespace Rewritten

variable {r s t : UInt32 → UInt32 → Prop} {ps : List Pointer} {code out : Bytes}

theorem eq_of_eq (h : Rewritten Eq flow ps code) : code = flow := by
  apply List.ext_getElem?
  intro i
  by_cases hi : ∃ p ∈ ps, p.kind = .stringRef ∧ p.offset.toNat ≤ i ∧ i < p.offset.toNat + 4
  · obtain ⟨p, hp, hs, hle, hlt⟩ := hi
    obtain ⟨v, w, hv, hw, rfl⟩ := h.slot p hp hs
    obtain ⟨k, rfl⟩ := Nat.exists_eq_add_of_le hle
    rw [Word.getElem?_of_at? hw (by omega), Word.getElem?_of_at? hv (by omega)]
  · apply h.other
    intro p hp hs
    by_contra hin
    exact hi ⟨p, hp, hs, by omega, by omega⟩

theorem trans (h : Rewritten r flow ps code) (h' : Rewritten s code ps out)
    (ht : ∀ u v w, r u v → s v w → t u w) : Rewritten t flow ps out where
  length := h'.length.trans h.length
  slot := by
    intro p hp hs
    obtain ⟨u, v, hu, hv, hr⟩ := h.slot p hp hs
    obtain ⟨v', w, hv', hw, hs⟩ := h'.slot p hp hs
    obtain rfl := Option.some.inj (hv.symm.trans hv')
    exact ⟨u, w, hu, hw, ht u v w hr hs⟩
  other := fun i hi => (h'.other i hi).trans (h.other i hi)

theorem symm (h : Rewritten r flow ps code) : Rewritten (fun w v => r v w) code ps flow where
  length := h.length.symm
  slot := by
    intro p hp hs
    obtain ⟨v, w, hv, hw, hr⟩ := h.slot p hp hs
    exact ⟨w, v, hw, hv, hr⟩
  other := fun i hi => (h.other i hi).symm

/-- Where the new values depend on the old ones alone, so does the code. -/
theorem unique (h : Rewritten r flow ps code) (h' : Rewritten r flow ps out)
    (hr : ∀ u v w, r u v → r u w → v = w) : code = out := by
  have he : Rewritten Eq out ps code := h'.symm.trans h fun w u v hw hv => hr u w v hw hv
  exact he.eq_of_eq

theorem congr {qs : List Pointer} (h : Rewritten r flow ps code) (hq : ∀ p, p ∈ qs ↔ p ∈ ps) :
    Rewritten r flow qs code where
  length := h.length
  slot := fun p hp => h.slot p ((hq p).mp hp)
  other := fun i hi => h.other i fun p hp => hi p ((hq p).mpr hp)

end Rewritten

theorem rewritten_rewriteSlots (g : UInt32 → UInt32) {ps : List Pointer}
    (hd : ps.Pairwise Apart)
    (hin : ∀ p ∈ ps, p.kind = .stringRef → p.offset.toNat + 4 ≤ flow.length) :
    Rewritten (fun v w => w = g v) flow ps (rewriteSlots g flow ps) := by
  induction ps generalizing flow with
  | nil => exact ⟨rfl, fun p hp => absurd hp List.not_mem_nil, fun i hi => rfl⟩
  | cons p ps ih =>
    obtain ⟨hp, hps⟩ := List.pairwise_cons.mp hd
    obtain ⟨hfirst, hrest⟩ := List.forall_mem_cons.mp hin
    rw [rewriteSlots]
    by_cases hk : p.kind = .stringRef
    · have hle := hfirst hk
      cases hv : Word.at? flow p.offset.toNat with
      | none =>
        have := Word.at?_eq_none_iff.mp hv
        omega
      | some v =>
        rw [if_pos hk]
        rw [← Word.length_put (g v) hle] at hrest
        have hlater := ih hps hrest
        refine ⟨hlater.length.trans (Word.length_put _ hle), ?_, ?_⟩
        · rw [List.forall_mem_cons]
          constructor
          · intro _
            refine ⟨v, g v, hv, ?_, rfl⟩
            -- The slot is written first, and the later ones are apart from it.
            rw [← Word.at?_put (g v) hle]
            apply Word.at?_congr
            intro i hi hi'
            apply hlater.other
            intro q hq hs
            have := hp q hq hk hs
            omega
          · intro q hq hs
            rw [← at?_put_of_pairwise (w := g v) hv hk hp q hq hs]
            exact hlater.slot q hq hs
        · intro i hi
          obtain ⟨hi, his⟩ := List.forall_mem_cons.mp hi
          exact (hlater.other i his).trans (Word.getElem?_put_of_outside _ hle (hi hk))
    · rw [if_neg hk]
      have hlater := ih hps hrest
      refine ⟨hlater.length, ?_, ?_⟩
      · exact List.forall_mem_cons.mpr ⟨fun hs => absurd hs hk, hlater.slot⟩
      · exact fun i hi => hlater.other i (List.forall_mem_cons.mp hi).2

theorem relocateFrom_eq_rewriteSlots {ps : List Pointer}
    (h : (relocateFrom base flow ps).2 = none) :
    (relocateFrom base flow ps).1 = rewriteSlots (· - base) flow ps := by
  induction ps generalizing flow with
  | nil => rfl
  | cons p ps ih =>
    rw [rewriteSlots]
    by_cases hk : p.kind = .stringRef
    · cases ho : relocateOne base flow p with
      | error e =>
        rw [relocateFrom_of_error ps hk ho] at h
        cases h
      | ok flow' =>
        obtain ⟨v, hv, -, rfl⟩ := relocateOne_eq_ok_iff.mp ho
        rw [relocateFrom_of_ok ps hk ho] at h ⊢
        rw [if_pos hk, hv]
        exact ih h
    · rw [relocateFrom_of_ne ps hk] at h ⊢
      rw [if_neg hk]
      exact ih h

theorem rewritten_relocateFrom {ps : List Pointer} (hd : ps.Pairwise Apart)
    (h : (relocateFrom base flow ps).2 = none) :
    Rewritten (fun v w => base ≤ v ∧ w = v - base) flow ps (relocateFrom base flow ps).1 := by
  have hgood := (relocateFrom_eq_none_iff hd).mp h
  have hin : ∀ p ∈ ps, p.kind = .stringRef → p.offset.toNat + 4 ≤ flow.length := by
    intro p hp hs
    obtain ⟨v, hv, -⟩ := hgood p hp hs
    exact Word.le_length_of_at? hv
  have hr := rewritten_rewriteSlots (· - base) hd hin
  rw [relocateFrom_eq_rewriteSlots h]
  refine ⟨hr.length, ?_, hr.other⟩
  intro p hp hs
  obtain ⟨v, w, hv, hw, he⟩ := hr.slot p hp hs
  obtain ⟨v', hv', hle⟩ := hgood p hp hs
  obtain rfl := Option.some.inj (hv.symm.trans hv')
  exact ⟨v, w, hv, hw, hle, he⟩

/-- Relocation stops at the first string reference that fails, and leaves what the ones before it
have made of the stream. -/
theorem exists_of_relocateFrom {ps : List Pointer} {e : RelocationError}
    (h : (relocateFrom base flow ps).2 = some e) :
    ∃ before p after, ps = before ++ p :: after ∧ p.kind = .stringRef ∧
      (relocateFrom base flow before).2 = none ∧
      (relocateFrom base flow ps).1 = (relocateFrom base flow before).1 ∧
      relocateOne base (relocateFrom base flow before).1 p = .error e := by
  induction ps generalizing flow with
  | nil => cases h
  | cons p ps ih =>
    by_cases hk : p.kind = .stringRef
    · cases ho : relocateOne base flow p with
      | error e' =>
        rw [relocateFrom_of_error ps hk ho] at h
        obtain rfl := Option.some.inj h
        exact ⟨[], p, ps, rfl, hk, rfl, by rw [relocateFrom_of_error ps hk ho]; rfl, ho⟩
      | ok flow' =>
        rw [relocateFrom_of_ok ps hk ho] at h
        obtain ⟨before, q, after, rfl, hq, hnone, hsame, hfail⟩ := ih h
        refine ⟨p :: before, q, after, rfl, hq, ?_⟩
        rw [relocateFrom_of_ok _ hk ho, relocateFrom_of_ok _ hk ho]
        exact ⟨hnone, hsame, hfail⟩
    · rw [relocateFrom_of_ne ps hk] at h
      obtain ⟨before, q, after, rfl, hq, hnone, hsame, hfail⟩ := ih h
      refine ⟨p :: before, q, after, rfl, hq, ?_⟩
      rw [relocateFrom_of_ne _ hk, relocateFrom_of_ne _ hk]
      exact ⟨hnone, hsame, hfail⟩

def RelocationError.offset : RelocationError → UInt32
  | outside offset _ => offset
  | inward offset _ _ => offset

theorem offset_of_relocateOne {p : Pointer} {e : RelocationError}
    (h : relocateOne base flow p = .error e) :
    e.offset = p.offset ∧ ¬ ∃ v, Word.at? flow p.offset.toNat = some v ∧ base ≤ v := by
  constructor
  · unfold relocateOne at h
    split at h
    · obtain rfl := Except.error.inj h
      rfl
    · split at h
      · obtain rfl := Except.error.inj h
        rfl
      · cases h
  · rintro ⟨v, hv, hle⟩
    rw [relocateOne_eq_ok_iff.mpr ⟨v, hv, hle, rfl⟩] at h
    cases h

/-- The slot of the pointer lies in the stream, and its value points past the stream. -/
def Movable (flow : Bytes) (p : Pointer) : Prop :=
  p.offset.toNat + 4 ≤ flow.length ∧
    ∃ v, Word.at? flow p.offset.toNat = some v ∧ flow.length ≤ v.toNat

def Lowered (flow : Bytes) (ps : List Pointer) (code : Bytes) : Prop :=
  Rewritten (fun v w => v.toNat = w.toNat + flow.length) flow ps code

theorem Apart.symm {p q : Pointer} (h : Apart p q) : Apart q p :=
  fun hq hp => (h hp hq).symm

section Short

variable (hl : flow.length < 2 ^ 32) {ps : List Pointer} (hd : ps.Pairwise Apart)

include hl

theorem ofNat_length_le_iff {v : UInt32} :
    UInt32.ofNat flow.length ≤ v ↔ flow.length ≤ v.toNat := by
  rw [UInt32.le_iff_toNat_le, UInt32.toNat_ofNat_of_lt' hl]

theorem movable_iff {p : Pointer} :
    Movable flow p ↔
      ∃ v, Word.at? flow p.offset.toNat = some v ∧ UInt32.ofNat flow.length ≤ v := by
  simp only [ofNat_length_le_iff hl]
  constructor
  · exact fun h => h.2
  · rintro ⟨v, hv, hp⟩
    exact ⟨Word.le_length_of_at? hv, v, hv, hp⟩

include hd

theorem relocate_eq_none_iff :
    (relocate flow ps).2 = none ↔ ∀ p ∈ ps, p.kind = .stringRef → Movable flow p := by
  simp only [movable_iff hl]
  exact relocateFrom_eq_none_iff hd

theorem lowered_of_relocate (h : (relocate flow ps).2 = none) :
    Lowered flow ps (relocate flow ps).1 := by
  have hr := rewritten_relocateFrom hd h
  refine ⟨hr.length, ?_, hr.other⟩
  intro p hp hs
  obtain ⟨v, w, hv, hw, hle, rfl⟩ := hr.slot p hp hs
  refine ⟨v, _, hv, hw, ?_⟩
  have hpast := (ofNat_length_le_iff hl).mp hle
  rw [UInt32.toNat_sub_of_le _ _ hle, UInt32.toNat_ofNat_of_lt' hl]
  omega

theorem relocate_perm (h : (relocate flow ps).2 = none) {qs : List Pointer} (hq : qs.Perm ps) :
    relocate flow qs = relocate flow ps := by
  have hdq : qs.Pairwise Apart := (hq.pairwise_iff Apart.symm).mpr hd
  have hnone : (relocate flow qs).2 = none := by
    rw [relocate_eq_none_iff hl hdq]
    intro p hp
    exact (relocate_eq_none_iff hl hd).mp h p (hq.mem_iff.mp hp)
  apply Prod.ext
  · have hlow := (lowered_of_relocate hl hdq hnone).congr fun p => hq.mem_iff.symm
    apply hlow.unique (lowered_of_relocate hl hd h)
    intro u v w hv hw
    exact UInt32.toNat_inj.mp (by omega)
  · rw [h, hnone]

theorem rewriteSlots_relocate (h : (relocate flow ps).2 = none) :
    rewriteSlots (· + UInt32.ofNat flow.length) (relocate flow ps).1 ps = flow := by
  have hlow := lowered_of_relocate hl hd h
  have hin : ∀ p ∈ ps, p.kind = .stringRef →
      p.offset.toNat + 4 ≤ (relocate flow ps).1.length := by
    intro p hp hs
    rw [hlow.length]
    exact ((relocate_eq_none_iff hl hd).mp h p hp hs).1
  have hback := rewritten_rewriteSlots (· + UInt32.ofNat flow.length) hd hin
  have hsame : Rewritten Eq flow ps _ := hlow.trans hback (by
    rintro u v w hu rfl
    apply UInt32.toNat_inj.mp
    have := u.toNat_lt
    rw [UInt32.toNat_add, UInt32.toNat_ofNat_of_lt' hl]
    omega)
  exact hsame.eq_of_eq

theorem exists_of_relocate {e : RelocationError} (h : (relocate flow ps).2 = some e) :
    ∃ before p after, ps = before ++ p :: after ∧ p.kind = .stringRef ∧ e.offset = p.offset ∧
      ¬ Movable flow p ∧ (∀ q ∈ before, q.kind = .stringRef → Movable flow q) ∧
      Lowered flow before (relocate flow ps).1 := by
  obtain ⟨before, p, after, rfl, hk, hnone, hsame, hfail⟩ := exists_of_relocateFrom h
  obtain ⟨hbefore, -, hcross⟩ := List.pairwise_append.mp hd
  obtain ⟨ho, hno⟩ := offset_of_relocateOne hfail
  have hkept : Word.at? (relocate flow before).1 p.offset.toNat =
      Word.at? flow p.offset.toNat := by
    apply Word.at?_congr
    intro i hi hi'
    apply getElem?_relocateFrom
    intro q hq hs
    have := hcross q hq p List.mem_cons_self hs hk
    omega
  refine ⟨before, p, after, rfl, hk, ho, ?_, (relocate_eq_none_iff hl hbefore).mp hnone, ?_⟩
  · rw [movable_iff hl, ← hkept]
    exact hno
  · rw [relocate, hsame]
    exact lowered_of_relocate hl hbefore hnone

end Short

/-- Whatever the pointers are, bytes outside the slots of string references stay. Where these slots
are apart, relocation succeeds if and only if all of them can be moved. It then lowers each value by
the length of the stream, in whatever order, and can be undone. Otherwise it stops at the first that
cannot be moved, and has moved those before it. -/
theorem relocate_moves_slots (flow : Bytes) (ps : List Pointer) (hl : flow.length < 2 ^ 32) :
    (relocate flow ps).1.length = flow.length ∧
      (∀ i, (∀ p ∈ ps, p.kind = .stringRef → p.offset.toNat + 4 ≤ flow.length →
        i < p.offset.toNat ∨ p.offset.toNat + 4 ≤ i) → (relocate flow ps).1[i]? = flow[i]?) ∧
      (ps.Pairwise Apart →
        ((relocate flow ps).2 = none ↔ ∀ p ∈ ps, p.kind = .stringRef → Movable flow p) ∧
        ((relocate flow ps).2 = none →
          Lowered flow ps (relocate flow ps).1 ∧
          (∀ qs : List Pointer, qs.Perm ps → relocate flow qs = relocate flow ps) ∧
          rewriteSlots (· + UInt32.ofNat flow.length) (relocate flow ps).1 ps = flow) ∧
        ∀ e, (relocate flow ps).2 = some e →
          ∃ before p after, ps = before ++ p :: after ∧ p.kind = .stringRef ∧
            e.offset = p.offset ∧ ¬ Movable flow p ∧
            (∀ q ∈ before, q.kind = .stringRef → Movable flow q) ∧
            Lowered flow before (relocate flow ps).1) := by
  refine ⟨length_relocateFrom ps, fun i hi => getElem?_relocateFrom_of_fits hi, ?_⟩
  intro hd
  refine ⟨relocate_eq_none_iff hl hd, ?_, ?_⟩
  · intro h
    exact ⟨lowered_of_relocate hl hd h, fun qs hq => relocate_perm hl hd h hq,
      rewriteSlots_relocate hl hd h⟩
  · intro e h
    exact exists_of_relocate hl hd h

def threeSlots (second : UInt32) : Bytes := [12, second, 0xFFFFFFFF].flatMap Word.bytes

def slotPointers : List Pointer :=
  [⟨8, .stringRef⟩, ⟨2, .streamPointer⟩, ⟨4, .stringRef⟩, ⟨0, .stringRef⟩]

theorem relocate_moves_slots_three :
    (Lowered (threeSlots 20) slotPointers ([0, 8, 0xFFFFFFF3].flatMap Word.bytes) ∧
        relocate (threeSlots 20) slotPointers.reverse = relocate (threeSlots 20) slotPointers ∧
        rewriteSlots (· + 12) ([0, 8, 0xFFFFFFF3].flatMap Word.bytes) slotPointers =
          threeSlots 20) ∧
      ∃ e, (relocate (threeSlots 11) slotPointers).2 = some e ∧ e.offset = 4 ∧
        ∃ before p after, slotPointers = before ++ p :: after ∧ p.offset = 4 ∧
          ¬ Movable (threeSlots 11) p ∧
          Lowered (threeSlots 11) before ([12, 11, 0xFFFFFFF3].flatMap Word.bytes) := by
  have hd : slotPointers.Pairwise Apart := by decide
  constructor
  · obtain ⟨-, -, h⟩ := relocate_moves_slots (threeSlots 20) slotPointers (by decide)
    have hr : relocate (threeSlots 20) slotPointers =
        ([0, 8, 0xFFFFFFF3].flatMap Word.bytes, none) := by decide
    obtain ⟨hlow, hperm, hback⟩ := (h hd).2.1 (by rw [hr])
    rw [hr] at hlow hback
    exact ⟨hlow, hperm _ (List.reverse_perm slotPointers), hback⟩
  · obtain ⟨-, -, h⟩ := relocate_moves_slots (threeSlots 11) slotPointers (by decide)
    have hr : relocate (threeSlots 11) slotPointers =
        ([12, 11, 0xFFFFFFF3].flatMap Word.bytes, some (.inward 4 11 12)) := by decide
    obtain ⟨before, p, after, hsplit, -, ho, hbad, -, hlow⟩ := (h hd).2.2 _ (by rw [hr])
    rw [hr] at hlow
    exact ⟨_, by rw [hr], rfl, before, p, after, hsplit, ho.symm, hbad, hlow⟩

end FlowPack
