import FlowPack.Proofs.Assembly
import FlowPack.Proofs.Conversion

namespace FlowPack.Script

def unitValue (low high : UInt8) : Nat := low.toNat + 256 * high.toNat

inductive Utf16 : List Char → Bytes → Prop where
  | nil : Utf16 [] []
  | unit {c : Char} {cs : List Char} {a b : UInt8} {rest : Bytes} (h : unitValue a b = c.toNat)
    (hrest : Utf16 cs rest) : Utf16 (c :: cs) (a :: b :: rest)
  | pair {c : Char} {cs : List Char} {a b a' b' : UInt8} {rest : Bytes}
    (hhigh : 0xD800 ≤ unitValue a b ∧ unitValue a b < 0xDC00)
    (hlow : 0xDC00 ≤ unitValue a' b' ∧ unitValue a' b' < 0xE000)
    (h : 0x10000 + 0x400 * (unitValue a b - 0xD800) + (unitValue a' b' - 0xDC00) = c.toNat)
    (hrest : Utf16 cs rest) : Utf16 (c :: cs) (a :: b :: a' :: b' :: rest)

theorem unitValue_unitBytes (u : UInt16) : unitValue u.toUInt8 (u >>> 8).toUInt8 = u.toNat := by
  have hu := u.toNat_lt
  simp only [unitValue, UInt16.toNat_toUInt8, UInt16.toNat_shiftRight, UInt16.reduceToNat,
    Nat.reduceMod, Nat.shiftRight_eq_div_pow]
  omega

theorem utf16_utf16Units (c : Char) {cs : List Char} {rest : Bytes} (h : Utf16 cs rest) :
    Utf16 (c :: cs) ((utf16Units c).flatMap unitBytes ++ rest) := by
  have hc : c.toNat < 0x110000 := by
    have hv := c.valid
    simp only [UInt32.isValidChar, Nat.isValidChar] at hv
    change c.val.toNat < 0x110000
    omega
  unfold utf16Units
  dsimp only
  split
  · next hn =>
    have hu : c.toNat.toUInt16.toNat = c.toNat := UInt16.toNat_ofNat_of_lt' hn
    exact .unit (by rw [unitValue_unitBytes, hu]) h
  · next hn =>
    have hhigh : (0xD800 + (c.toNat - 0x10000) / 1024).toUInt16.toNat =
        0xD800 + (c.toNat - 0x10000) / 1024 :=
      UInt16.toNat_ofNat_of_lt' (show _ < 2 ^ 16 by omega)
    have hlow : (0xDC00 + (c.toNat - 0x10000) % 1024).toUInt16.toNat =
        0xDC00 + (c.toNat - 0x10000) % 1024 :=
      UInt16.toNat_ofNat_of_lt' (show _ < 2 ^ 16 by omega)
    refine .pair ?_ ?_ ?_ h <;> simp only [unitValue_unitBytes, hhigh, hlow] <;> omega

theorem utf16_utf16Bytes (t : Text) : Utf16 (t.map Glyph.shown) (utf16Bytes t) := by
  induction t with
  | nil => exact .nil
  | cons g t ih => exact utf16_utf16Units g.shown ih

/-- The bytes of a string and the zero that closes it, as wide as a unit of the string. -/
inductive Spelling : Call → Bytes → Prop where
  | unicode {t : Text} {units : Bytes} (h : Utf16 (t.map Glyph.shown) units) :
    Spelling (.unicode t) (units ++ [0, 0])
  | ascii (t : Text) : Spelling (.ascii t) (t.bytes ++ [0])

theorem Spelling.length_pos {c : Call} {data : Bytes} (h : Spelling c data) : 0 < data.length := by
  cases h <;> simp

structure Reference where
  call : Call
  argument : Argument
  deriving DecidableEq, Repr

/-- The string of a reference starts where the reference says. -/
structure Reference.StoredIn (strings : Bytes) (r : Reference) : Prop where
  string : r.argument.kind .standard = .string
  inStrings : r.argument.inStrings = true
  placed : ∃ before data, Spelling r.call data ∧ before ++ data <+: strings ∧
    r.argument.value = UInt32.ofNat before.length

theorem Reference.StoredIn.mono {strings strings' : Bytes} {r : Reference}
    (h : r.StoredIn strings) (hs : strings <+: strings') : r.StoredIn strings' := by
  obtain ⟨before, data, hd, hp, hv⟩ := h.placed
  exact ⟨h.string, h.inStrings, before, data, hd, hp.trans hs, hv⟩

namespace Assembler

def reference? (a : Assembler) : Call → Option Reference
  | .unicode t => some ⟨.unicode t, (a.addUnicode t).1⟩
  | .ascii t => some ⟨.ascii t, (a.addAscii t).1⟩
  | .emit _ | .raw _ => none

def references (a : Assembler) : List Call → List Reference
  | [] => []
  | c :: calls => (a.reference? c).toList ++ (a.apply c).references calls

theorem strings_apply (a : Assembler) (c : Call) : a.strings <+: (a.apply c).strings := by
  cases c with
  | emit d =>
    by_cases hl : d.args.length > maxArgs <;> simp [apply, emit, hl]
  | unicode t => exact ⟨_, (List.append_assoc ..).symm⟩
  | ascii t => exact ⟨_, (List.append_assoc ..).symm⟩
  | raw data => exact ⟨data, rfl⟩

theorem strings_run (a : Assembler) (calls : List Call) : a.strings <+: (a.run calls).strings := by
  induction calls generalizing a with
  | nil => exact List.prefix_refl _
  | cons c calls ih => exact (strings_apply a c).trans (ih (a.apply c))

theorem placed_apply {a : Assembler} {c : Call} {r : Reference} (h : a.reference? c = some r) :
    r.argument.value = UInt32.ofNat a.strings.length ∧
      ∃ data, Spelling r.call data ∧ a.strings ++ data <+: (a.apply c).strings := by
  cases c with
  | emit d => cases h
  | unicode t =>
    cases h
    refine ⟨rfl, _, .unicode (utf16_utf16Bytes t), ?_⟩
    -- Two zero bytes close the string; two more may follow.
    have hpad : [0, 0] <+: List.replicate
        (if (a.strings ++ utf16Bytes t).length % 4 = 2 then 2 else 4) (0 : UInt8) := by
      refine List.prefix_replicate_iff.mpr ⟨?_, rfl⟩
      split <;> simp
    rw [← List.append_assoc]
    exact (List.prefix_append_right_inj _).mpr hpad
  | ascii t =>
    cases h
    refine ⟨rfl, _, .ascii t, ?_⟩
    have hpad : [0] <+: List.replicate (4 - t.bytes.length % 4) (0 : UInt8) := by
      refine List.prefix_replicate_iff.mpr ⟨?_, rfl⟩
      rw [List.length_singleton]
      omega
    rw [← List.append_assoc]
    exact (List.prefix_append_right_inj _).mpr hpad
  | raw data => cases h

theorem kind_reference {a : Assembler} {c : Call} {r : Reference} (h : a.reference? c = some r) :
    r.argument.kind .standard = .string ∧ r.argument.inStrings = true := by
  cases c with
  | emit d => cases h
  | unicode t =>
    cases h
    exact ⟨rfl, rfl⟩
  | ascii t =>
    cases h
    exact ⟨rfl, rfl⟩
  | raw data => cases h

theorem storedIn_apply {a : Assembler} {c : Call} {r : Reference} (h : a.reference? c = some r) :
    r.StoredIn (a.apply c).strings := by
  obtain ⟨hv, data, hd, hp⟩ := placed_apply h
  obtain ⟨hk, hs⟩ := kind_reference h
  exact ⟨hk, hs, a.strings, data, hd, hp, hv⟩

/-- Later calls leave a string where it is. -/
theorem storedIn_run (a : Assembler) (calls : List Call) :
    ∀ r ∈ a.references calls, r.StoredIn (a.run calls).strings := by
  induction calls generalizing a with
  | nil => exact fun r hr => absurd hr List.not_mem_nil
  | cons c calls ih =>
    intro r hr
    rw [references, List.mem_append, Option.mem_toList] at hr
    rw [run_cons]
    rcases hr with hr | hr
    · exact (storedIn_apply hr).mono (strings_run (a.apply c) calls)
    · exact ih (a.apply c) r hr

end Assembler

namespace Reference.StoredIn

variable {strings : Bytes} {r : Reference} (h : r.StoredIn strings)
  (hl : strings.length < 2 ^ 32)

include h hl

theorem exists_spelling :
    ∃ data, Spelling r.call data ∧ data <+: strings.drop r.argument.value.toNat := by
  obtain ⟨before, data, hd, ⟨after, rfl⟩, hv⟩ := h.placed
  have hb : before.length < 2 ^ 32 := by
    simp only [List.length_append] at hl
    omega
  refine ⟨data, hd, ?_⟩
  rw [hv, UInt32.toNat_ofNat_of_lt' hb, List.append_assoc, List.drop_left]
  exact List.prefix_append data after

theorem value_lt : r.argument.value.toNat < strings.length := by
  obtain ⟨data, hd, hp⟩ := h.exists_spelling hl
  have hpos := hd.length_pos
  have hle := hp.length_le
  rw [List.length_drop] at hle
  omega

end Reference.StoredIn

namespace Assembled

variable {tags : TagSets} {flowSize : UInt32} {es : List Emission} {l : Listing}
  (h : Assembled tags flowSize es l)

include h

theorem streamed : Streamed tags 0 l.items :=
  streamed_of_valid h.valid (h.length ▸ flowSize.toNat_lt)

theorem exists_instruction {e : Emission} (he : e ∈ es) :
    ∃ i ∈ (l.program tags).instructions, e.ReadAs tags flowSize i := by
  obtain ⟨k, hk, rfl⟩ := List.getElem_of_mem he
  have hk' := h.instructions.length_eq ▸ hk
  exact ⟨_, List.getElem_mem hk', h.instructions.get hk hk'⟩

theorem exists_emission {i : Instruction} (hi : i ∈ (l.program tags).instructions) :
    ∃ e ∈ es, e.ReadAs tags flowSize i := by
  obtain ⟨k, hk, rfl⟩ := List.getElem_of_mem hi
  have hk' := h.instructions.length_eq.symm ▸ hk
  exact ⟨_, List.getElem_mem hk', h.instructions.get hk' hk⟩

end Assembled

namespace Emission.ReadAs

variable {tags : TagSets} {flowSize : UInt32} {e : Emission} {i : Instruction}
  (h : e.ReadAs tags flowSize i) {n : Nat}

include h

theorem argument {a : Argument} (ha : e.draft.args[n]? = some a) :
    i.args[n]? = some (a.written flowSize) ∧ i.kinds[n]? = some (a.kind tags) := by
  rw [h.args, h.kinds, List.getElem?_map, List.getElem?_map, ha]
  exact ⟨rfl, rfl⟩

theorem exists_argument {v : UInt32} (hv : i.args[n]? = some v) :
    ∃ a ∈ e.draft.args, e.draft.args[n]? = some a := by
  rw [h.args, List.getElem?_map, Option.map_eq_some_iff] at hv
  obtain ⟨a, ha, -⟩ := hv
  exact ⟨a, List.mem_of_getElem? ha, ha⟩

end Emission.ReadAs

/-- An argument that counts from the start of the strings, and points into them, exactly if its
tag is recognised as that of a string. -/
def Argument.Resolvable (stringsLength : Nat) (a : Argument) : Prop :=
  a.inStrings = false ∧ a.kind .standard ≠ .string ∨
    a.inStrings = true ∧ a.kind .standard = .string ∧ a.value.toNat < stringsLength

theorem Argument.resolvable_of_forms {strings : Bytes} {rs : List Reference} {a : Argument}
    (hrs : ∀ r ∈ rs, r.StoredIn strings) (hl : strings.length < 2 ^ 32)
    (ha : a = .int a.value ∨ a = .label a.value ∨ ∃ r ∈ rs, a = r.argument) :
    a.Resolvable strings.length := by
  have hint : ∀ v, (int v).kind .standard = .value := fun _ => rfl
  have hlabel : ∀ v, (label v).kind .standard = .pointer := fun _ => rfl
  rcases ha with ha | ha | ⟨r, hr, rfl⟩
  · rw [ha]
    exact .inl ⟨rfl, by rw [hint]; decide⟩
  · rw [ha]
    exact .inl ⟨rfl, by rw [hlabel]; decide⟩
  · exact .inr ⟨(hrs r hr).inStrings, (hrs r hr).string, (hrs r hr).value_lt hl⟩

section Relocated

variable {flowSize : UInt32} {es : List Emission} {l : Listing} {size : Nat}
  (h : Assembled .standard flowSize es l) (hsize : flowSize.toNat + size < 2 ^ 32)
  (hargs : ∀ e ∈ es, ∀ a ∈ e.draft.args, a.Resolvable size)

omit h in
include hsize in
theorem toNat_written {a : Argument} (ha : a.Resolvable size) (hk : a.kind .standard = .string) :
    (a.written flowSize).toNat = a.value.toNat + flowSize.toNat ∧ a.value.toNat < size := by
  rcases ha with ⟨-, hne⟩ | ⟨hs, -, hlt⟩
  · exact absurd hk hne
  · rw [Argument.written, if_pos hs, UInt32.toNat_add, Nat.mod_eq_of_lt (by omega)]
    exact ⟨rfl, hlt⟩

include h hsize hargs

theorem pointsPastStream_assembled : PointsPastStream (l.program .standard) := by
  rintro i hi ⟨v, k⟩ hvk rfl
  obtain ⟨m, hm⟩ := List.mem_iff_getElem?.mp hvk
  obtain ⟨hv, hk⟩ := List.getElem?_zip_eq_some.mp hm
  obtain ⟨e, he, hr⟩ := h.exists_emission hi
  obtain ⟨a, hmem, ha⟩ := hr.exists_argument hv
  obtain ⟨hv', hk'⟩ := hr.argument ha
  obtain rfl := Option.some.inj (hv'.symm.trans hv)
  have hstring := Option.some.inj (hk'.symm.trans hk)
  rw [h.length, (toNat_written hsize (hargs e he a hmem) hstring).1]
  exact Nat.le_add_left ..

/-- Whatever kind an argument has, its slot ends up with the value it was given. -/
theorem at?_argument {code : Bytes} (hb : Rebased (l.program .standard) code) {e : Emission}
    (he : e ∈ es) {m : Nat} {a : Argument} (ha : e.draft.args[m]? = some a) :
    Word.at? code (e.offset.toNat + 4 * (m + 1)) = some a.value := by
  obtain ⟨i, hi, hr⟩ := h.exists_instruction he
  obtain ⟨hv, hk⟩ := hr.argument ha
  have hres := hargs e he a (List.mem_of_getElem? ha)
  rw [← hr.offset]
  by_cases hstring : a.kind .standard = .string
  · obtain ⟨hw, -⟩ := toNat_written hsize hres hstring
    rw [hstring] at hk
    obtain ⟨q, hq, hqk, ho⟩ := exists_pointer h.streamed i hi m .string hk (by decide)
    obtain ⟨v, w, hv', hw', hvw⟩ := hb.string q hq (PointerKind.argKind_eq_string_iff.mp hqk)
    rw [ho, at?_word h.streamed hi (m := m + 1) hv] at hv'
    obtain rfl := Option.some.inj hv'
    rw [ho] at hw'
    rw [hw']
    congr 1
    apply UInt32.toNat_inj.mp
    rw [h.length] at hvw
    omega
  · have hplain : a.written flowSize = a.value := by
      rcases hres with ⟨hs, -⟩ | ⟨-, hk, -⟩
      · rw [Argument.written, hs]
        rfl
      · exact absurd hk hstring
    rw [hplain] at hv
    apply hb.word i hi (m + 1) a.value hv
    intro n hn hkn
    obtain rfl := Nat.succ.inj hn
    exact hstring (Option.some.inj (hk.symm.trans hkn))

theorem danglingStrings_assembled {code : Bytes} (hb : Rebased (l.program .standard) code) :
    danglingStrings code (l.program .standard).pointers size = [] := by
  rw [danglingStrings, List.filter_eq_nil_iff]
  intro q hq hd
  obtain ⟨i, hi, m, v, hv, hk, ho⟩ := exists_argument h.streamed q hq
  obtain ⟨e, he, hr⟩ := h.exists_emission hi
  obtain ⟨a, hmem, ha⟩ := hr.exists_argument hv
  obtain ⟨-, hk'⟩ := hr.argument ha
  have hw := at?_argument h hsize hargs hb he ha
  rw [← hr.offset, ← ho] at hw
  simp only [hw, Bool.and_eq_true, decide_eq_true_eq] at hd
  rw [PointerKind.argKind_eq_string_iff.mpr hd.1] at hk
  have hstring := Option.some.inj (hk'.symm.trans hk)
  have hlt := (toNat_written hsize (hargs e he a hmem) hstring).2
  omega

end Relocated

/-- The strings of an assembler are found after conversion: every reference that a call has
returned leads to the string of that call, no reference dangles, and every argument that was given
is in its slot. References may be used by any instruction of the run. -/
theorem built_strings_resolve (header : Header) (calls : List Call)
    (hsize : Emission.totalSize (Assembler.emissions { header } calls) +
      (Assembler.run { header } calls).strings.length < 2 ^ 32)
    (hargs : ∀ e ∈ Assembler.emissions { header } calls, ∀ a ∈ e.draft.args,
      a = .int a.value ∨ a = .label a.value ∨
        ∃ r ∈ Assembler.references { header } calls, a = r.argument)
    (hmarks : ∀ e ∈ Assembler.emissions { header } calls, (∀ a ∈ e.draft.args, a.tag = none) →
      e.draft.opcode.word ≠ endMark ∧ e.draft.opcode.word ≠ blockMark) :
    ∃ p c, (decode .standard ⟨(Assembler.run { header } calls).bytes, none⟩).result = .ok p ∧
      Container.ofProgram p = .ok c ∧
      danglingStrings c.code c.pointers c.strings.length = [] ∧
      (∀ e ∈ Assembler.emissions { header } calls, ∀ n a, e.draft.args[n]? = some a →
        Word.at? c.code (e.offset.toNat + 4 * (n + 1)) = some a.value) ∧
      ∀ r ∈ Assembler.references { header } calls, ∃ data, Spelling r.call data ∧
        data <+: c.strings.drop r.argument.value.toNat := by
  have hflow : Emission.totalSize (Assembler.emissions { header } calls) < 2 ^ 32 := by omega
  have hstrings : (Assembler.run { header } calls).strings.length < 2 ^ 32 := by omega
  obtain ⟨l, hl, hbytes, -, hdata⟩ := assembled_run .standard header calls hflow hmarks
  have hstored := Assembler.storedIn_run { header } calls
  have hres := fun e he a ha => Argument.resolvable_of_forms hstored hstrings (hargs e he a ha)
  have hwhole : (Assembler.run { header } calls).flowSize.toNat +
      (Assembler.run { header } calls).strings.length < 2 ^ 32 := by
    rwa [hl.size]
  have hrel := (relocated_iff hl.streamed).mpr (pointsPastStream_assembled hl hwhole hres)
  have hb := rebased_of_relocated hl.streamed hrel
  refine ⟨l.program .standard, packed (l.program .standard), ?_, ?_, ?_, ?_, ?_⟩
  · rw [← hbytes]
    exact decode_words hl.valid
  · rw [ofProgram_eq, hrel]
  · have hd := danglingStrings_assembled hl hwhole hres hb
    rwa [← hdata] at hd
  · exact fun e he n a ha => at?_argument hl hwhole hres hb he ha
  · intro r hr
    have hs := (hstored r hr).exists_spelling hstrings
    rwa [← hdata] at hs

/-- A text with a surrogate pair and a stray byte, and one at an odd position; the first is used
twice, before and after the second is there. -/
def quotedCalls : List Call :=
  [.unicode [.char 'h', .char '😀', .stray 0xFF], .raw [1, 2, 3],
    .emit ⟨5, 0, [.int 7, ⟨0, some 1, true⟩, .label 0]⟩, .ascii [.char 'o', .char 'k'],
    .emit ⟨6, 1, [⟨15, some 2, true⟩, ⟨0, some 1, true⟩]⟩, .emit ⟨1, 0, []⟩]

theorem built_strings_resolve_quoted :
    ∃ p c, (decode .standard
        ⟨(Assembler.run { header := ⟨1, 0, 0⟩ } quotedCalls).bytes, none⟩).result = .ok p ∧
      Container.ofProgram p = .ok c ∧ danglingStrings c.code c.pointers c.strings.length = [] ∧
      Word.at? c.code 4 = some 7 ∧ Word.at? c.code 20 = some 15 ∧
      ∃ data, Spelling (.ascii [.char 'o', .char 'k']) data ∧ data <+: c.strings.drop 15 := by
  obtain ⟨p, c, hp, hc, hd, hw, hs⟩ :=
    built_strings_resolve ⟨1, 0, 0⟩ quotedCalls (by decide) (by decide) (by decide)
  refine ⟨p, c, hp, hc, hd, ?_, ?_, ?_⟩
  · exact hw ⟨0, ⟨5, 0, [.int 7, ⟨0, some 1, true⟩, .label 0]⟩⟩ (by decide) 0 _ rfl
  · exact hw ⟨16, ⟨6, 1, [⟨15, some 2, true⟩, ⟨0, some 1, true⟩]⟩⟩ (by decide) 0 _ rfl
  · exact hs ⟨.ascii [.char 'o', .char 'k'], ⟨15, some 2, true⟩⟩ (by decide)

end FlowPack.Script
