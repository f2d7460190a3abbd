import FlowPack.Proofs.Assembly

namespace FlowPack.Script

namespace Draft

/-- No argument is annotated, all bits for the argument count and the inline argument are set, and
so are those of the command but perhaps the last. -/
def Mistakable (d : Draft) : Prop :=
  (∀ a ∈ d.args, a.tag = none) ∧ d.args.length = maxArgs ∧
    d.inlineArg.toNat % 2 ^ 18 = 2 ^ 18 - 1 ∧ 2 ^ 10 - 2 ≤ d.command.toNat % 2 ^ 10

instance (d : Draft) : Decidable d.Mistakable := inferInstanceAs (Decidable (_ ∧ _ ∧ _ ∧ _))

variable {d : Draft} (hl : d.args.length ≤ maxArgs)

include hl

theorem word_eq_endMark_iff :
    d.opcode.word = endMark ↔ d.args.length = maxArgs ∧
      d.inlineArg.toNat % 2 ^ 18 = 2 ^ 18 - 1 ∧ d.command.toNat % 2 ^ 10 = 2 ^ 10 - 2 := by
  have h := Opcode.toNat_pack d.command d.inlineArg hl
  have hm : endMark.toNat = 2 ^ 32 - 2 := rfl
  rw [← UInt32.toNat_inj, Draft.opcode, h, hm]
  unfold maxArgs at hl ⊢
  omega

theorem word_eq_blockMark_iff :
    d.opcode.word = blockMark ↔ d.args.length = maxArgs ∧
      d.inlineArg.toNat % 2 ^ 18 = 2 ^ 18 - 1 ∧ d.command.toNat % 2 ^ 10 = 2 ^ 10 - 1 := by
  have h := Opcode.toNat_pack d.command d.inlineArg hl
  have hm : blockMark.toNat = 2 ^ 32 - 1 := rfl
  rw [← UInt32.toNat_inj, Draft.opcode, h, hm]
  unfold maxArgs at hl ⊢
  omega

theorem valid_item_of_not_mistakable (tags : TagSets) (flowSize : UInt32)
    (h : ¬ d.Mistakable) : (d.item flowSize).Valid tags := by
  apply valid_item flowSize tags hl
  intro ht
  rw [ne_eq, ne_eq, word_eq_endMark_iff hl, word_eq_blockMark_iff hl]
  constructor
  · rintro ⟨hn, hi, hc⟩
    exact h ⟨ht, hn, hi, by omega⟩
  · rintro ⟨hn, hi, hc⟩
    exact h ⟨ht, hn, hi, by omega⟩

end Draft

namespace Assembler

/-- The listing of drafts, with whatever follows the end of the stream. -/
def listing (a : Assembler) (drafts : List Draft) (strings : Bytes) : Listing :=
  ⟨a.header, drafts.map (·.item a.flowSize), strings⟩

theorem bytes_eq_listing_before {a : Assembler} {before after : List Draft} {d : Draft}
    (hd : a.drafts = before ++ d :: after) (ht : ∀ x ∈ d.args, x.tag = none)
    (hw : d.opcode.word = endMark) :
    ∃ strings, a.bytes = (a.listing before strings).bytes := by
  have hitem : d.item a.flowSize = .bare d.opcode (d.args.map (Argument.written a.flowSize)) :=
    if_pos (Draft.annotationRecords_eq_nil_iff.mpr ht)
  rw [bytes_eq_listing, hd]
  refine ⟨(d.args.map (Argument.written a.flowSize)).flatMap Word.bytes ++
    ((after.map (·.item a.flowSize)).flatMap Item.words).flatMap Word.bytes ++
    Word.bytes endMark ++ a.strings, ?_⟩
  simp only [listing, Listing.bytes, List.map_append, List.map_cons, List.flatMap_append,
    List.flatMap_cons, hitem, Item.words, Item.lead, Item.tail, hw, List.append_assoc]

end Assembler

section Listing

variable (tags : TagSets) (a : Assembler) (es : List Emission) (strings : Bytes)

variable {es} in
theorem valid_listing (hl : ∀ e ∈ es, e.draft.args.length ≤ maxArgs)
    (h : ∀ e ∈ es, ¬ e.draft.Mistakable) :
    (a.listing (es.map (·.draft)) strings).Valid tags := by
  intro i hi
  simp only [Assembler.listing, List.map_map, List.mem_map] at hi
  obtain ⟨e, he, rfl⟩ := hi
  exact Draft.valid_item_of_not_mistakable (hl e he) tags a.flowSize (h e he)

theorem instructions_listing :
    ((a.listing (es.map (·.draft)) strings).program tags).instructions.map
        (fun i => (i.opcode, i.args)) =
      es.map fun e => (e.draft.opcode, e.draft.args.map (Argument.written a.flowSize)) := by
  have h := instructions_bodyOf tags 0 (a.listing (es.map (·.draft)) strings).items
  simp only [Assembler.listing, List.map_map] at h ⊢
  rw [Listing.program, h]
  apply List.map_congr_left
  intro e _
  simp

end Listing

section Run

variable (tags : TagSets) (header : Header) (calls : List Call)

theorem drafts_run_new :
    (Assembler.run { header } calls).drafts =
      (Assembler.emissions { header } calls).map (·.draft) :=
  Assembler.drafts_run { header } calls

theorem decode_run_of_not_mistakable
    (h : ∀ e ∈ Assembler.emissions { header } calls, ¬ e.draft.Mistakable) :
    (decode tags ⟨(Assembler.run { header } calls).bytes, none⟩).result =
      .ok (((Assembler.run { header } calls).listing
        ((Assembler.emissions { header } calls).map (·.draft))
        (Assembler.run { header } calls).strings).program tags) := by
  have hl := Assembler.length_args_emissions { header } calls
  have hd := decode_words (valid_listing tags (Assembler.run { header } calls)
    (Assembler.run { header } calls).strings hl h)
  rw [← drafts_run_new] at hd ⊢
  rwa [Assembler.listing, ← Assembler.bytes_eq_listing] at hd

theorem decode_run_before {before after : List Emission} {e : Emission}
    (hes : Assembler.emissions { header } calls = before ++ e :: after)
    (hb : ∀ b ∈ before, ¬ b.draft.Mistakable) (he : e.draft.Mistakable)
    (hc : e.draft.command.toNat % 2 ^ 10 = 2 ^ 10 - 2) :
    ∃ p, (decode tags ⟨(Assembler.run { header } calls).bytes, none⟩).result = .ok p ∧
      p.instructions.length = before.length := by
  have hl := Assembler.length_args_emissions { header } calls
  have hdrafts := drafts_run_new header calls
  rw [hes] at hl
  rw [hes, List.map_append, List.map_cons] at hdrafts
  obtain ⟨ht, hn, hi, -⟩ := he
  have hw := (Draft.word_eq_endMark_iff (hl e (by simp))).mpr ⟨hn, hi, hc⟩
  obtain ⟨strings, hbytes⟩ := Assembler.bytes_eq_listing_before hdrafts ht hw
  have hd := decode_words (valid_listing tags (Assembler.run { header } calls) strings
    (fun b hm => hl b (List.mem_append_left _ hm)) hb)
  have hlen := congrArg List.length
    (instructions_listing tags (Assembler.run { header } calls) before strings)
  rw [hbytes]
  exact ⟨_, hd, by simpa using hlen⟩

end Run

/-- Every accepted instruction is read back and the string data with it, unless one of them can be
mistaken for a mark. The first that spells the end mark is lost with all that follow. -/
theorem decode_keeps_emissions (tags : TagSets) (header : Header) (calls : List Call) :
    ((∀ e ∈ Assembler.emissions { header } calls, ¬ e.draft.Mistakable) →
      ∃ p, (decode tags ⟨(Assembler.run { header } calls).bytes, none⟩).result = .ok p ∧
        p.instructions.length = (Assembler.emissions { header } calls).length ∧
        p.instructions.map (fun i => (i.opcode, i.args)) =
          (Assembler.emissions { header } calls).map (fun e => (e.draft.opcode,
            e.draft.args.map (Argument.written (Assembler.run { header } calls).here))) ∧
        p.strings = (Assembler.run { header } calls).strings) ∧
      ∀ before e after, Assembler.emissions { header } calls = before ++ e :: after →
        (∀ b ∈ before, ¬ b.draft.Mistakable) → e.draft.Mistakable →
        e.draft.command.toNat % 2 ^ 10 = 2 ^ 10 - 2 →
          ∃ p, (decode tags ⟨(Assembler.run { header } calls).bytes, none⟩).result = .ok p ∧
            p.instructions.length = before.length := by
  constructor
  · intro h
    have hd := decode_run_of_not_mistakable tags header calls h
    have hi := instructions_listing tags (Assembler.run { header } calls)
      (Assembler.emissions { header } calls) (Assembler.run { header } calls).strings
    exact ⟨_, hd, by simpa using congrArg List.length hi, hi, rfl⟩
  · intro before e after hes hb he hc
    exact decode_run_before tags header calls hes hb he hc

def endingCalls : List Call :=
  mixedCalls ++ [.emit ⟨0x3FE, 0x3FFFF, List.replicate 15 (.int 0)⟩]

theorem decode_keeps_emissions_mixed :
    (∃ p, (decode .standard ⟨(Assembler.run { header := ⟨1, 0, 0⟩ } mixedCalls).bytes,
        none⟩).result = .ok p ∧ p.instructions.length = 3) ∧
      ∃ p, (decode .standard ⟨(Assembler.run { header := ⟨1, 0, 0⟩ } endingCalls).bytes,
        none⟩).result = .ok p ∧ p.instructions.length = 3 := by
  constructor
  · obtain ⟨p, hp, hl, -⟩ :=
      (decode_keeps_emissions .standard ⟨1, 0, 0⟩ mixedCalls).1 (by decide)
    exact ⟨p, hp, hl.trans (by decide)⟩
  · exact (decode_keeps_emissions .standard ⟨1, 0, 0⟩ endingCalls).2
      (Assembler.emissions { header := ⟨1, 0, 0⟩ } mixedCalls)
      ⟨80, ⟨0x3FE, 0x3FFFF, List.replicate 15 (.int 0)⟩⟩ [] (by decide) (by decide) (by decide)
      (by decide)

/-- One instruction is accepted and none is read back. -/
theorem end_mark_instruction_is_lost :
    (Assembler.emissions { header := ⟨0, 0, 0⟩ }
        [.emit ⟨0x3FE, 0x3FFFF, List.replicate 15 (.int 0)⟩]).length = 1 ∧
      ∃ p, (decode .standard ⟨(Assembler.run { header := ⟨0, 0, 0⟩ }
        [.emit ⟨0x3FE, 0x3FFFF, List.replicate 15 (.int 0)⟩]).bytes, none⟩).result = .ok p ∧
        p.instructions.length = 0 := by
  have hes : Assembler.emissions { header := ⟨0, 0, 0⟩ }
      [.emit ⟨0x3FE, 0x3FFFF, List.replicate 15 (.int 0)⟩] =
        [] ++ ⟨0, ⟨0x3FE, 0x3FFFF, List.replicate 15 (.int 0)⟩⟩ :: [] := by decide
  exact ⟨by decide, decode_run_before .standard _ _ hes (by decide) (by decide) (by decide)⟩

end FlowPack.Script
