import FlowPack.Proofs.Decoding
import Mathlib.Data.List.Nodup

namespace FlowPack.Script

def Instruction.words (i : Instruction) : List UInt32 := i.opcode.word :: i.args

theorem PointerKind.argKind_eq_string_iff {k : PointerKind} :
    k.argKind = .string ↔ k = .stringRef := by
  unfold PointerKind.argKind
  split <;> simp_all

namespace Item

variable {tags : TagSets} {here : Nat} {i : Item}

theorem length_code (hi : i.Framed) : (i.code.flatMap Word.bytes).length = i.size := by
  rw [Word.length_flatMap_bytes, code, List.length_cons, length_args hi, size]
  omega

theorem mem_pointers_iff {q : Pointer} :
    q ∈ i.pointers tags here ↔ ∃ n < i.opcode.argCount, i.kind tags n = some q.kind ∧
      q.offset = UInt32.ofNat (here + 4 * (n + 1)) := by
  simp only [pointers, List.mem_filterMap, List.mem_range, Option.map_eq_some_iff]
  constructor
  · rintro ⟨n, hn, k, hk, rfl⟩
    exact ⟨n, hn, hk, rfl⟩
  · rintro ⟨n, hn, hk, ho⟩
    exact ⟨n, hn, q.kind, hk, by rw [← ho]⟩

theorem kind_cases {n : Nat} {k : PointerKind} (h : i.kind tags n = some k) :
    k = .stringRef ∨ k = .streamPointer := by
  unfold kind recordKind at h
  split at h
  · exact .inl (Option.some.inj h).symm
  · split at h
    · exact .inr (Option.some.inj h).symm
    · cases h

section Bounded

variable (hb : here + i.size < 2 ^ 32)

include hb

theorem toNat_argument {n : Nat} (hn : n < i.opcode.argCount) :
    (UInt32.ofNat (here + 4 * (n + 1))).toNat = here + 4 * (n + 1) := by
  unfold size at hb
  exact UInt32.toNat_ofNat_of_lt' (show here + 4 * (n + 1) < 2 ^ 32 by omega)

theorem toNat_offset_instruction : (i.instruction tags here).offset.toNat = here :=
  UInt32.toNat_ofNat_of_lt' (show here < 2 ^ 32 by omega)

theorem offset_of_mem_pointers {q : Pointer} (hq : q ∈ i.pointers tags here) :
    ∃ n < i.opcode.argCount, i.kind tags n = some q.kind ∧
      q.offset.toNat = here + 4 * (n + 1) := by
  obtain ⟨n, hn, hk, ho⟩ := mem_pointers_iff.mp hq
  exact ⟨n, hn, hk, by rw [ho, toNat_argument hb hn]⟩

theorem pairwise_pointers :
    (i.pointers tags here).Pairwise fun p q => p.offset.toNat + 4 ≤ q.offset.toNat := by
  unfold pointers
  rw [List.pairwise_filterMap]
  apply List.Pairwise.imp_of_mem _ List.pairwise_lt_range
  intro m n hm hn hlt p hp q hq
  obtain ⟨k, -, rfl⟩ := Option.map_eq_some_iff.mp hp
  obtain ⟨l, -, rfl⟩ := Option.map_eq_some_iff.mp hq
  dsimp only
  rw [toNat_argument hb (List.mem_range.mp hm), toNat_argument hb (List.mem_range.mp hn)]
  omega

end Bounded

theorem kinds_instruction {n : Nat} {k : ArgKind} :
    (i.instruction tags here).kinds[n]? = some k ↔
      n < i.opcode.argCount ∧ .ofPointer? (i.kind tags n) = k := by
  simp [instruction, List.getElem?_eq_some_iff]

end Item

theorem annotated_bodyOf (tags : TagSets) (here : Nat) (items : List Item) :
    (bodyOf tags here items).annotated = (bodyOf tags here items).pointers.length := by
  induction items generalizing here with
  | nil => rfl
  | cons i items ih => simp only [bodyOf, List.length_append, ih]

theorem kind_of_mem_pointers {tags : TagSets} {here : Nat} {items : List Item} :
    ∀ q ∈ (bodyOf tags here items).pointers, q.kind = .stringRef ∨ q.kind = .streamPointer := by
  induction items generalizing here with
  | nil => exact fun q hq => absurd hq List.not_mem_nil
  | cons i items ih =>
    intro q hq
    rcases List.mem_append.mp hq with hq | hq
    · obtain ⟨n, -, hk, -⟩ := Item.mem_pointers_iff.mp hq
      exact Item.kind_cases hk
    · exact ih q hq

theorem countP_streamPointer {ps : List Pointer}
    (h : ∀ q ∈ ps, q.kind = .stringRef ∨ q.kind = .streamPointer) :
    ps.countP (·.kind = .streamPointer) = ps.length - ps.countP (·.kind = .stringRef) := by
  have hsum := ps.length_eq_countP_add_countP fun q => q.kind = .stringRef
  have hother : ps.countP (·.kind = .streamPointer) =
      ps.countP fun q => decide ¬ decide (q.kind = .stringRef) = true := by
    apply List.countP_congr
    intro q hq
    rcases h q hq with hk | hk <;> simp [hk, PointerKind.stringRef, PointerKind.streamPointer]
  omega

section Stream

variable {tags : TagSets}

/-- A stream of items that ends before the largest offset. -/
structure Streamed (tags : TagSets) (here : Nat) (items : List Item) : Prop where
  framed : ∀ i ∈ items, i.Framed
  short : here + (bodyOf tags here items).flow.length < 2 ^ 32

theorem streamed_of_valid {l : Listing} (hv : l.Valid tags)
    (hl : (l.program tags).flow.length < 2 ^ 32) : Streamed tags 0 l.items where
  framed := fun i hi => (hv i hi).1
  short := by rwa [Nat.zero_add]

theorem length_flow_cons {here : Nat} {i : Item} {items : List Item} (hi : i.Framed) :
    (bodyOf tags here (i :: items)).flow.length =
      i.size + (bodyOf tags (here + i.size) items).flow.length := by
  rw [bodyOf, List.length_append, Item.length_code hi]

theorem Streamed.cons {here : Nat} {i : Item} {items : List Item}
    (h : Streamed tags here (i :: items)) :
    i.Framed ∧ here + i.size < 2 ^ 32 ∧ Streamed tags (here + i.size) items := by
  have hi := h.framed i List.mem_cons_self
  have hs := h.short
  rw [length_flow_cons hi] at hs
  exact ⟨hi, by omega, fun j hj => h.framed j (List.mem_cons_of_mem i hj), by omega⟩

theorem pointer_bounds {here : Nat} {items : List Item} (h : Streamed tags here items) :
    ∀ q ∈ (bodyOf tags here items).pointers, here + 4 ≤ q.offset.toNat ∧
      q.offset.toNat + 4 ≤ here + (bodyOf tags here items).flow.length := by
  induction items generalizing here with
  | nil => exact fun q hq => absurd hq List.not_mem_nil
  | cons i items ih =>
    obtain ⟨hi, hb, hrest⟩ := h.cons
    intro q hq
    rw [length_flow_cons hi]
    rcases List.mem_append.mp hq with hq | hq
    · obtain ⟨n, hn, -, ho⟩ := Item.offset_of_mem_pointers hb hq
      have hsize : i.size = 4 * (1 + i.opcode.argCount) := rfl
      omega
    · have := ih hrest q hq
      omega

/-- Pointers come in the order of the stream, at least a word apart. -/
theorem pairwise_pointers {here : Nat} {items : List Item} (h : Streamed tags here items) :
    (bodyOf tags here items).pointers.Pairwise
      fun p q => p.offset.toNat + 4 ≤ q.offset.toNat := by
  induction items generalizing here with
  | nil => exact .nil
  | cons i items ih =>
    obtain ⟨hi, hb, hrest⟩ := h.cons
    refine List.pairwise_append.mpr ⟨Item.pairwise_pointers hb, ih hrest, ?_⟩
    intro p hp q hq
    obtain ⟨n, hn, -, ho⟩ := Item.offset_of_mem_pointers hb hp
    have hq := pointer_bounds hrest q hq
    have hsize : i.size = 4 * (1 + i.opcode.argCount) := rfl
    omega

/-- The instructions stand one behind the other from `here` to `stop`. -/
def Chained : Nat → List Instruction → Nat → Prop
  | here, [], stop => here = stop
  | here, i :: rest, stop => i.offset.toNat = here ∧ Chained (here + i.size) rest stop

namespace Chained

variable {here stop : Nat} {is : List Instruction}

theorem le_offset (h : Chained here is stop) : ∀ i ∈ is, here ≤ i.offset.toNat := by
  induction is generalizing here with
  | nil => exact fun i hi => absurd hi List.not_mem_nil
  | cons j is ih =>
    obtain ⟨hj, hrest⟩ := h
    intro i hi
    rcases List.mem_cons.mp hi with rfl | hi
    · exact Nat.le_of_eq hj.symm
    · have := ih hrest i hi
      omega

theorem aligned (h : Chained here is stop) (ha : 4 ∣ here) :
    ∀ i ∈ is, 4 ∣ i.offset.toNat := by
  induction is generalizing here with
  | nil => exact fun i hi => absurd hi List.not_mem_nil
  | cons j is ih =>
    obtain ⟨hj, hrest⟩ := h
    have hnext : 4 ∣ here + j.size := Nat.dvd_add ha (Nat.dvd_mul_right 4 _)
    exact List.forall_mem_cons.mpr ⟨hj ▸ ha, ih hrest hnext⟩

theorem word_inj (h : Chained here is stop) {i j : Instruction} (hi : i ∈ is) (hj : j ∈ is)
    {m n : Nat} (hm : m < i.words.length) (hn : n < j.words.length)
    (he : i.offset.toNat + 4 * m = j.offset.toNat + 4 * n) : i = j ∧ m = n := by
  induction is generalizing here with
  | nil => exact absurd hi List.not_mem_nil
  | cons k is ih =>
    obtain ⟨hk, hrest⟩ := h
    have hsize : k.size = 4 * k.words.length := by
      rw [Instruction.size, Instruction.words, List.length_cons, Nat.add_comm]
    rcases List.mem_cons.mp hi with rfl | hi' <;> rcases List.mem_cons.mp hj with rfl | hj'
    · exact ⟨rfl, by omega⟩
    · have := le_offset hrest j hj'
      omega
    · have := le_offset hrest i hi'
      omega
    · exact ih hrest hi' hj'

end Chained

theorem chained_bodyOf {here : Nat} {items : List Item} (h : Streamed tags here items) :
    Chained here (bodyOf tags here items).instructions
      (here + (bodyOf tags here items).flow.length) := by
  induction items generalizing here with
  | nil => rfl
  | cons i items ih =>
    obtain ⟨hi, hb, hrest⟩ := h.cons
    have hsize : (i.instruction tags here).size = i.size := by
      rw [Instruction.size, Item.size, ← Item.length_args hi]
      rfl
    refine ⟨Item.toNat_offset_instruction hb, ?_⟩
    rw [hsize, length_flow_cons hi, ← Nat.add_assoc]
    exact ih hrest

theorem instruction_bounds {here : Nat} {items : List Item} (h : Streamed tags here items) :
    ∀ j ∈ (bodyOf tags here items).instructions, here ≤ j.offset.toNat :=
  (chained_bodyOf h).le_offset

theorem at?_instruction {here : Nat} {items : List Item} (h : Streamed tags here items)
    (before : Bytes) (hl : before.length = here) :
    ∀ j ∈ (bodyOf tags here items).instructions, ∀ m w, j.words[m]? = some w →
      Word.at? (before ++ (bodyOf tags here items).flow) (j.offset.toNat + 4 * m) = some w := by
  induction items generalizing here before with
  | nil => exact fun j hj => absurd hj List.not_mem_nil
  | cons i items ih =>
    obtain ⟨hi, hb, hrest⟩ := h.cons
    intro j hj m w hw
    rcases List.mem_cons.mp hj with rfl | hj
    · rw [Item.toNat_offset_instruction hb, ← hl]
      exact Word.at?_flatMap_bytes _ _ hw
    · have hl' : (before ++ i.code.flatMap Word.bytes).length = here + i.size := by
        rw [List.length_append, hl, Item.length_code hi]
      have := ih hrest _ hl' j hj m w hw
      rwa [List.append_assoc] at this

theorem exists_argument {here : Nat} {items : List Item} (h : Streamed tags here items) :
    ∀ q ∈ (bodyOf tags here items).pointers, ∃ j ∈ (bodyOf tags here items).instructions,
      ∃ n v, j.args[n]? = some v ∧ j.kinds[n]? = some q.kind.argKind ∧
        q.offset.toNat = j.offset.toNat + 4 * (n + 1) := by
  induction items generalizing here with
  | nil => exact fun q hq => absurd hq List.not_mem_nil
  | cons i items ih =>
    obtain ⟨hi, hb, hrest⟩ := h.cons
    intro q hq
    rcases List.mem_append.mp hq with hq | hq
    · obtain ⟨n, hn, hk, ho⟩ := Item.offset_of_mem_pointers hb hq
      have hargs : n < i.args.length := by rwa [Item.length_args hi]
      refine ⟨_, List.mem_cons_self, n, i.args[n], List.getElem?_eq_getElem hargs, ?_, ?_⟩
      · exact Item.kinds_instruction.mpr ⟨hn, by rw [hk]; rfl⟩
      · rw [ho, Item.toNat_offset_instruction hb]
    · obtain ⟨j, hj, hrest⟩ := ih hrest q hq
      exact ⟨j, List.mem_cons_of_mem _ hj, hrest⟩

theorem exists_pointer {here : Nat} {items : List Item} (h : Streamed tags here items) :
    ∀ j ∈ (bodyOf tags here items).instructions, ∀ n k, j.kinds[n]? = some k → k ≠ .value →
      ∃ q ∈ (bodyOf tags here items).pointers, q.kind.argKind = k ∧
        q.offset.toNat = j.offset.toNat + 4 * (n + 1) := by
  induction items generalizing here with
  | nil => exact fun j hj => absurd hj List.not_mem_nil
  | cons i items ih =>
    obtain ⟨hi, hb, hrest⟩ := h.cons
    intro j hj n k hk hv
    rcases List.mem_cons.mp hj with rfl | hj
    · obtain ⟨hn, hp⟩ := Item.kinds_instruction.mp hk
      cases hkind : i.kind tags n with
      | none =>
        rw [hkind] at hp
        exact absurd hp.symm hv
      | some l =>
        rw [hkind] at hp
        refine ⟨⟨UInt32.ofNat (here + 4 * (n + 1)), l⟩, List.mem_append_left _ ?_, hp, ?_⟩
        · exact Item.mem_pointers_iff.mpr ⟨n, hn, hkind, rfl⟩
        · rw [Item.toNat_offset_instruction hb]
          exact Item.toNat_argument hb hn
    · obtain ⟨q, hq, hrest⟩ := ih hrest j hj n k hk hv
      exact ⟨q, List.mem_append_right _ hq, hrest⟩

/-- The opcodes and the arguments that are no strings are apart from all string references. -/
theorem string_apart {here : Nat} {items : List Item} (h : Streamed tags here items) :
    ∀ j ∈ (bodyOf tags here items).instructions, ∀ m < j.words.length,
      (∀ n, m = n + 1 → j.kinds[n]? ≠ some .string) →
      ∀ q ∈ (bodyOf tags here items).pointers, q.kind = .stringRef →
        q.offset.toNat + 4 ≤ j.offset.toNat + 4 * m ∨
          j.offset.toNat + 4 * m + 4 ≤ q.offset.toNat := by
  induction items generalizing here with
  | nil => exact fun j hj => absurd hj List.not_mem_nil
  | cons i items ih =>
    obtain ⟨hi, hb, hrest⟩ := h.cons
    have hsize : i.size = 4 * (1 + i.opcode.argCount) := rfl
    intro j hj m hm hno q hq hs
    -- The word and the slot each lie in the first instruction or in a later one.
    rcases List.mem_cons.mp hj with rfl | hj <;> rcases List.mem_append.mp hq with hq | hq
    · obtain ⟨n, hn, hk, ho⟩ := Item.offset_of_mem_pointers hb hq
      have hne : m ≠ n + 1 := by
        intro he
        apply hno n he
        exact Item.kinds_instruction.mpr ⟨hn, by rw [hk, hs]; rfl⟩
      rw [Item.toNat_offset_instruction hb]
      omega
    · have hq := pointer_bounds hrest q hq
      have hargs : m < i.args.length + 1 := hm
      rw [Item.length_args hi] at hargs
      rw [Item.toNat_offset_instruction hb]
      omega
    · obtain ⟨n, hn, -, ho⟩ := Item.offset_of_mem_pointers hb hq
      have hj := instruction_bounds hrest j hj
      omega
    · exact ih hrest j hj m hm hno q hq hs

end Stream

/-- The instructions fill the stream, and the pointers stand for the arguments that are no plain
values, in the order of the stream. -/
structure Program.WellFormed (p : Program) : Prop where
  counted : ∀ i ∈ p.instructions,
    i.args.length = i.opcode.argCount ∧ i.kinds.length = i.opcode.argCount
  chained : Chained 0 p.instructions p.flow.length
  encoded : p.flow = (p.instructions.flatMap Instruction.words).flatMap Word.bytes
  increasing : p.pointers.Pairwise fun q r => q.offset.toNat < r.offset.toNat
  placed : ∀ q ∈ p.pointers, ∃ i ∈ p.instructions, ∃ n < i.opcode.argCount,
    q.offset.toNat = i.offset.toNat + 4 * (n + 1)
  inside : ∀ q ∈ p.pointers, 4 ∣ q.offset.toNat ∧ q.offset.toNat + 4 ≤ p.flow.length ∧
    ∀ i ∈ p.instructions, q.offset ≠ i.offset
  pointed : ∀ i ∈ p.instructions, ∀ n k, i.kinds[n]? = some k →
    (k ≠ .value ↔ ∃! q, q ∈ p.pointers ∧ q.offset.toNat = i.offset.toNat + 4 * (n + 1))
  typed : ∀ i ∈ p.instructions, ∀ n k, i.kinds[n]? = some k → ∀ q ∈ p.pointers,
    q.offset.toNat = i.offset.toNat + 4 * (n + 1) →
      (q.kind = .stringRef ↔ k = .string) ∧ (q.kind = .streamPointer ↔ k = .pointer)
  annotated : p.annotated = p.pointers.length

theorem PointerKind.argKind_eq_pointer_iff {k : PointerKind}
    (h : k = .stringRef ∨ k = .streamPointer) : k.argKind = .pointer ↔ k = .streamPointer := by
  rcases h with rfl | rfl <;> decide

theorem PointerKind.argKind_ne_value (k : PointerKind) : k.argKind ≠ .value := by
  unfold PointerKind.argKind
  split <;> decide

theorem encoded_bodyOf (tags : TagSets) (here : Nat) (items : List Item) :
    (bodyOf tags here items).flow =
      ((bodyOf tags here items).instructions.flatMap Instruction.words).flatMap Word.bytes := by
  induction items generalizing here with
  | nil => rfl
  | cons i items ih =>
    rw [bodyOf, List.flatMap_cons, List.flatMap_append, ← ih]
    rfl

theorem counted_bodyOf {tags : TagSets} {here : Nat} {items : List Item}
    (h : ∀ i ∈ items, i.Framed) :
    ∀ j ∈ (bodyOf tags here items).instructions,
      j.args.length = j.opcode.argCount ∧ j.kinds.length = j.opcode.argCount := by
  induction items generalizing here with
  | nil => exact fun j hj => absurd hj List.not_mem_nil
  | cons i items ih =>
    rw [List.forall_mem_cons] at h
    refine List.forall_mem_cons.mpr ⟨⟨Item.length_args h.1, ?_⟩, ih h.2⟩
    rw [Item.instruction, List.length_map, List.length_range]

section Decoded

variable {tags : TagSets} {items : List Item} (h : Streamed tags 0 items)

include h

theorem chained_program :
    Chained 0 (bodyOf tags 0 items).instructions (bodyOf tags 0 items).flow.length := by
  have hc := chained_bodyOf h
  rwa [Nat.zero_add] at hc

theorem kind_of_pointer {i : Instruction} (hi : i ∈ (bodyOf tags 0 items).instructions) {n : Nat}
    {k : ArgKind} (hk : i.kinds[n]? = some k) {q : Pointer}
    (hq : q ∈ (bodyOf tags 0 items).pointers)
    (ho : q.offset.toNat = i.offset.toNat + 4 * (n + 1)) : k = q.kind.argKind := by
  obtain ⟨j, hj, m, v, hv, hkind, ho'⟩ := exists_argument h q hq
  have hn : n + 1 < i.words.length := by
    have hlt := (List.getElem?_eq_some_iff.mp hk).1
    obtain ⟨hargs, hkinds⟩ := counted_bodyOf h.framed i hi
    rw [Instruction.words, List.length_cons]
    omega
  have hm : m + 1 < j.words.length :=
    Nat.succ_lt_succ (List.getElem?_eq_some_iff.mp hv).1
  obtain ⟨rfl, hmn⟩ := (chained_program h).word_inj hi hj hn hm (ho.symm.trans ho')
  obtain rfl := Nat.succ.inj hmn
  exact Option.some.inj (hk.symm.trans hkind)

theorem offset_ne_of_pointer {i : Instruction} (hi : i ∈ (bodyOf tags 0 items).instructions)
    {q : Pointer} (hq : q ∈ (bodyOf tags 0 items).pointers) : q.offset ≠ i.offset := by
  intro he
  obtain ⟨j, hj, m, v, hv, -, ho⟩ := exists_argument h q hq
  have hm : m + 1 < j.words.length :=
    Nat.succ_lt_succ (List.getElem?_eq_some_iff.mp hv).1
  have hsame := (chained_program h).word_inj hi hj (Nat.succ_pos i.args.length) hm
    (by rw [← he, ho, Nat.mul_zero, Nat.add_zero])
  exact absurd hsame.2 (Nat.succ_ne_zero m).symm

theorem pointer_unique {q r : Pointer} (hq : q ∈ (bodyOf tags 0 items).pointers)
    (hr : r ∈ (bodyOf tags 0 items).pointers) (he : q.offset.toNat = r.offset.toNat) : q = r := by
  have hnodup : ((bodyOf tags 0 items).pointers.map (·.offset.toNat)).Nodup :=
    List.pairwise_map.mpr ((pairwise_pointers h).imp fun hle => by omega)
  exact List.inj_on_of_nodup_map hnodup hq hr he

theorem wellFormed_bodyOf (header : Header) (strings : Bytes) :
    (Listing.program tags ⟨header, items, strings⟩).WellFormed where
  counted := counted_bodyOf h.framed
  chained := chained_program h
  encoded := encoded_bodyOf tags 0 items
  increasing := (pairwise_pointers h).imp fun hle => by omega
  placed := by
    intro q hq
    obtain ⟨i, hi, n, v, hv, -, ho⟩ := exists_argument h q hq
    have hn := (List.getElem?_eq_some_iff.mp hv).1
    rw [(counted_bodyOf h.framed i hi).1] at hn
    exact ⟨i, hi, n, hn, ho⟩
  inside := by
    intro q hq
    obtain ⟨i, hi, n, -, -, -, ho⟩ := exists_argument h q hq
    have hbounds := (pointer_bounds h q hq).2
    rw [Nat.zero_add] at hbounds
    refine ⟨?_, hbounds, fun j hj => offset_ne_of_pointer h hj hq⟩
    rw [ho]
    exact Nat.dvd_add ((chained_program h).aligned (Nat.dvd_zero 4) i hi) (Nat.dvd_mul_right 4 _)
  pointed := by
    intro i hi n k hk
    constructor
    · intro hv
      obtain ⟨q, hq, -, ho⟩ := exists_pointer h i hi n k hk hv
      exact ⟨q, ⟨hq, ho⟩, fun r hr => pointer_unique h hr.1 hq (hr.2.trans ho.symm)⟩
    · rintro ⟨q, ⟨hq, ho⟩, -⟩
      rw [kind_of_pointer h hi hk hq ho]
      exact q.kind.argKind_ne_value
  typed := by
    intro i hi n k hk q hq ho
    rw [kind_of_pointer h hi hk hq ho, PointerKind.argKind_eq_string_iff,
      PointerKind.argKind_eq_pointer_iff (kind_of_mem_pointers q hq)]
    exact ⟨Iff.rfl, Iff.rfl⟩
  annotated := annotated_bodyOf tags 0 items

end Decoded

/-- Every program that is decoded from a source is well formed. -/
theorem decode_wellFormed {tags : TagSets} {s : Source} {p : Program}
    (h : (decode tags s).result = .ok p) (hl : p.flow.length < 2 ^ 32) : p.WellFormed := by
  obtain ⟨data, fault⟩ := s
  obtain rfl : fault = none := fault_of_decode h
  obtain ⟨l, hv, -, rfl⟩ := decode_eq_ok_iff.mp h
  exact wellFormed_bodyOf (streamed_of_valid hv hl) l.header l.strings

/-- A bare instruction, and one behind a block whose records are out of order: one of them is stray,
and one is overruled. -/
def pointedListing : Listing where
  header := ⟨3, 0, 0⟩
  items := [.bare (.pack 1 0 1) [5], .marked [0x201, 0x17, 0, 0x200] (.pack 2 9 3) [0, 7, 24]]
  strings := [0x61, 0]

theorem decode_wellFormed_pointed :
    (pointedListing.program .standard).pointers = [⟨12, .streamPointer⟩, ⟨20, .stringRef⟩] ∧
      (pointedListing.program .standard).WellFormed := by
  have hd : (decode .standard ⟨pointedListing.bytes, none⟩).result =
      .ok (pointedListing.program .standard) := decode_words (by decide)
  exact ⟨by decide, decode_wellFormed hd (by decide)⟩

end FlowPack.Script
