import FlowPack.Proofs.Conversion

namespace FlowPack

open Script

theorem Rebased.flow_eq {p p' : Program} {code : Bytes} (h : Rebased p code)
    (h' : Rebased p' code) (hq : p.pointers = p'.pointers) : p.flow = p'.flow := by
  have hlen : p'.flow.length = p.flow.length := h'.length.symm.trans h.length
  have hp : Lowered p.flow p.pointers code := ⟨h.length, h.string, h.other⟩
  have hp' : Lowered p'.flow p.pointers code := by
    rw [hq]
    exact ⟨h'.length, h'.string, h'.other⟩
  rw [Lowered, hlen] at hp'
  exact hp.symm.unique hp'.symm fun _ _ _ hv hv' => UInt32.toNat_inj.mp (hv.trans hv'.symm)

namespace Script

theorem Item.code_append_inj {i j : Item} {s t : Bytes} (hi : i.Framed) (hj : j.Framed)
    (h : i.code.flatMap Word.bytes ++ s = j.code.flatMap Word.bytes ++ t) :
    i.opcode = j.opcode ∧ i.args = j.args ∧ s = t := by
  simp only [code, List.flatMap_cons, List.append_assoc] at h
  obtain ⟨hw, h⟩ := Word.bytes_append_inj h
  have hop : i.opcode = j.opcode := congrArg Opcode.mk hw
  have hl : i.args.length = j.args.length := by rw [length_args hi, length_args hj, hop]
  exact ⟨hop, Word.flatMap_bytes_append_inj hl h⟩

section Stream

variable {tags tags' : TagSets} {here : Nat}

theorem kind_eq_some_iff {i : Item} {items : List Item} (h : Streamed tags here (i :: items))
    {n : Nat} (hn : n < i.opcode.argCount) {k : PointerKind} :
    i.kind tags n = some k ↔
      ⟨UInt32.ofNat (here + 4 * (n + 1)), k⟩ ∈ (bodyOf tags here (i :: items)).pointers := by
  obtain ⟨-, hb, hrest⟩ := h.cons
  constructor
  · intro hk
    exact List.mem_append_left _ (Item.mem_pointers_iff.mpr ⟨n, hn, hk, rfl⟩)
  · intro hm
    have hat := Item.toNat_argument hb hn
    rcases List.mem_append.mp hm with hm | hm
    · obtain ⟨n', hn', hk, ho⟩ := Item.offset_of_mem_pointers hb hm
      obtain rfl : n = n' := by
        simp only [hat] at ho
        omega
      exact hk
    · have hq := (pointer_bounds hrest _ hm).1
      simp only [hat, Item.size] at hq
      omega

theorem mem_later_pointers_iff {i : Item} {items : List Item}
    (h : Streamed tags here (i :: items)) {q : Pointer} :
    q ∈ (bodyOf tags (here + i.size) items).pointers ↔
      q ∈ (bodyOf tags here (i :: items)).pointers ∧ here + i.size ≤ q.offset.toNat := by
  obtain ⟨-, hb, hrest⟩ := h.cons
  constructor
  · intro hm
    have hq := (pointer_bounds hrest q hm).1
    exact ⟨List.mem_append_right _ hm, by omega⟩
  · rintro ⟨hm, hle⟩
    rcases List.mem_append.mp hm with hm | hm
    · obtain ⟨n, hn, -, ho⟩ := Item.offset_of_mem_pointers hb hm
      simp only [Item.size] at hle
      omega
    · exact hm

theorem flow_cons_ne_nil {i : Item} {items : List Item} :
    (bodyOf tags here (i :: items)).flow ≠ [] := by
  simp [bodyOf, Item.code, Word.bytes]

/-- Streams of the same bytes with the same pointers have the same instructions, whatever records
have marked their arguments. -/
theorem instructions_eq {items items' : List Item} (h : Streamed tags here items)
    (h' : Streamed tags' here items')
    (hflow : (bodyOf tags here items).flow = (bodyOf tags' here items').flow)
    (hq : ∀ q, q ∈ (bodyOf tags here items).pointers ↔
      q ∈ (bodyOf tags' here items').pointers) :
    (bodyOf tags here items).instructions = (bodyOf tags' here items').instructions := by
  induction items generalizing here items' with
  | nil =>
    cases items' with
    | nil => rfl
    | cons j items' => exact absurd hflow.symm flow_cons_ne_nil
  | cons i items ih =>
    cases items' with
    | nil => exact absurd hflow flow_cons_ne_nil
    | cons j items' =>
      obtain ⟨hi, -, hrest⟩ := h.cons
      obtain ⟨hj, -, hrest'⟩ := h'.cons
      obtain ⟨hop, hargs, hlater⟩ := Item.code_append_inj hi hj hflow
      have hsize : i.size = j.size := by rw [Item.size, Item.size, hop]
      have hkinds : ∀ n < i.opcode.argCount, i.kind tags n = j.kind tags' n := by
        intro n hn
        apply Option.ext
        intro k
        rw [kind_eq_some_iff h hn, hq, kind_eq_some_iff h' (hop ▸ hn)]
      have hfirst : i.instruction tags here = j.instruction tags' here := by
        simp only [Item.instruction, Instruction.mk.injEq, hop, hargs, true_and]
        apply List.map_congr_left
        intro n hn
        rw [hkinds n (by rw [hop]; exact List.mem_range.mp hn)]
      rw [← hsize] at hrest' hlater
      have hothers := ih hrest hrest' hlater (by
        intro q
        rw [mem_later_pointers_iff h, hq, hsize, mem_later_pointers_iff h'])
      simp only [bodyOf, hfirst, hothers, ← hsize]

end Stream

end Script

theorem convert_listing {tags : TagSets} {l : Listing} (hv : l.Valid tags)
    (hl : (l.program tags).flow.length < 2 ^ 32) (hp : PointsPastStream (l.program tags)) :
    ∃ r, (convert tags ⟨l.bytes, none⟩).result = .ok r ∧
      r.container = packed (l.program tags) := by
  have hrel := (relocated_iff (streamed_of_valid hv hl)).mpr hp
  obtain ⟨r, hr, hc⟩ := convert_of_relocated hrel
  exact ⟨r, convert_eq_ok_iff.mpr ⟨_, decode_words hv, hr⟩, hc⟩

/-- Scripts whose containers have the same bytes say the same: nothing is lost but two header
fields and the layout of the annotations. -/
theorem container_determines_program {tags tags' : TagSets} {data data' bytes : Bytes}
    {p p' : Program} {r r' : Converted} (hp : (decode tags ⟨data, none⟩).result = .ok p)
    (hp' : (decode tags' ⟨data', none⟩).result = .ok p')
    (hr : (convert tags ⟨data, none⟩).result = .ok r)
    (hr' : (convert tags' ⟨data', none⟩).result = .ok r') (hb : r.container.encode = .ok bytes)
    (hb' : r'.container.encode = .ok bytes) (hl : bytes.length < 2 ^ 32) :
    p.header.start = p'.header.start ∧ p.flow = p'.flow ∧ p.instructions = p'.instructions ∧
      p.pointers = p'.pointers ∧ p.strings = p'.strings ∧ p.annotated = p'.annotated := by
  obtain ⟨l, rfl, hs, hreb, hread⟩ := exists_listing_of_convert hp hr hb hl
  obtain ⟨l', rfl, hs', hreb', hread'⟩ := exists_listing_of_convert hp' hr' hb' hl
  have hc : packed (l.program tags) = packed (l'.program tags') :=
    Except.ok.inj (hread.symm.trans hread')
  have hpointers : (l.program tags).pointers = (l'.program tags').pointers :=
    congrArg Container.pointers hc
  rw [← hc] at hreb'
  have hflow := hreb.flow_eq hreb' hpointers
  refine ⟨congrArg Container.start hc, hflow, ?_, hpointers, congrArg Container.strings hc, ?_⟩
  · exact instructions_eq hs hs' hflow fun q => by
      change q ∈ (l.program tags).pointers ↔ q ∈ (l'.program tags').pointers
      rw [hpointers]
  · have hcount := congrArg List.length hpointers
    exact (annotated_bodyOf tags 0 l.items).trans
      (hcount.trans (annotated_bodyOf tags' 0 l'.items).symm)

/-- The greeting under another index, with its records in another order and under other tags, one
of them twice and some of them stray. -/
def restyled : Listing where
  header := ⟨2, 0, 9⟩
  items := [.marked [0x107, 3, 9, 9] (.pack 5 0 3) [80, 0, 7],
    .marked [0xFFFFFF05] ⟨endMark⟩ (List.replicate 15 9)]
  strings := [0x68, 0, 0x69, 0, 0, 0, 0, 0]

theorem container_determines_program_restyled :
    greeting.bytes ≠ restyled.bytes ∧
      (greeting.program .standard).flow = (restyled.program ⟨[7], [9]⟩).flow ∧
      (greeting.program .standard).instructions = (restyled.program ⟨[7], [9]⟩).instructions := by
  have hv : greeting.Valid .standard := by decide
  have hv' : restyled.Valid ⟨[7], [9]⟩ := by decide
  obtain ⟨r, hr, hc⟩ := convert_listing hv (by decide) (by decide)
  obtain ⟨r', hr', hc'⟩ := convert_listing hv' (by decide) (by decide)
  have hsame : packed (restyled.program ⟨[7], [9]⟩) = packed (greeting.program .standard) := by
    decide
  have he := Container.encode_eq_ok (c := packed (greeting.program .standard)) rfl
  obtain ⟨-, hflow, hinstr, -⟩ := container_determines_program (decode_words hv)
    (decode_words hv') hr hr' (by rw [hc, he]) (by rw [hc', hsame, he])
    (by rw [Container.length_sectionsBytes]; decide)
  exact ⟨by decide, hflow, hinstr⟩

end FlowPack
