import FlowPack.Proofs.Resolution

namespace FlowPack.Script

namespace Assembler

def after (a : Assembler) (calls : List Call) (n : Nat) : Assembler := a.run (calls.take n)

def returned (a : Assembler) (calls : List Call) (n : Nat) : Option Reference :=
  calls[n]?.bind (a.after calls n).reference?

theorem run_append (a : Assembler) (calls later : List Call) :
    a.run (calls ++ later) = (a.run calls).run later := List.foldl_append

theorem after_succ (a : Assembler) {calls : List Call} {n : Nat} {c : Call}
    (h : calls[n]? = some c) : a.after calls (n + 1) = (a.after calls n).apply c := by
  rw [after, List.take_add_one, h, run_append]
  rfl

theorem strings_after (a : Assembler) (calls : List Call) {i j : Nat} (h : i ≤ j) :
    (a.after calls i).strings <+: (a.after calls j).strings := by
  obtain ⟨k, rfl⟩ := Nat.exists_eq_add_of_le h
  rw [after, after, List.take_add, run_append]
  exact strings_run _ _

theorem strings_after_run (a : Assembler) (calls : List Call) (n : Nat) :
    (a.after calls n).strings <+: (a.run calls).strings := by
  conv_rhs => rw [← List.take_append_drop n calls, run_append]
  exact strings_run _ _

theorem placed_returned {a : Assembler} {calls : List Call} {n : Nat} {r : Reference}
    (h : a.returned calls n = some r) :
    r.argument.value = UInt32.ofNat (a.after calls n).strings.length ∧
      ∃ data, Spelling r.call data ∧
        (a.after calls n).strings ++ data <+: (a.after calls (n + 1)).strings := by
  obtain ⟨c, hc, hr⟩ := Option.bind_eq_some_iff.mp h
  rw [after_succ a hc]
  exact placed_apply hr

/-- Where the string of a returned reference is, and what is left of it by later calls. -/
structure Keeps (a : Assembler) (calls : List Call) (n : Nat) (r : Reference) : Prop where
  position : r.argument.value.toNat = (a.after calls n).strings.length
  stored : ∃ data, Spelling r.call data ∧
    (∀ m, n < m → data <+: (a.after calls m).strings.drop r.argument.value.toNat) ∧
    ∀ m r', n < m → a.returned calls m = some r' →
      r.argument.value.toNat + data.length ≤ r'.argument.value.toNat

section Bounded

variable {a : Assembler} {calls : List Call} (hl : (a.run calls).strings.length < 2 ^ 32)
  {n : Nat} {r : Reference}

include hl

theorem toNat_value_returned (h : a.returned calls n = some r) :
    r.argument.value.toNat = (a.after calls n).strings.length := by
  rw [(placed_returned h).1]
  exact UInt32.toNat_ofNat_of_lt' ((strings_after_run a calls n).length_le.trans_lt hl)

theorem keeps_returned (h : a.returned calls n = some r) : a.Keeps calls n r := by
  have hv := toNat_value_returned hl h
  obtain ⟨-, data, hd, hp⟩ := placed_returned h
  refine ⟨hv, data, hd, fun m hm => ?_, fun m r' hm hr => ?_⟩
  · obtain ⟨rest, hs⟩ := hp.trans (strings_after a calls hm)
    rw [← hs, hv, List.append_assoc, List.drop_left]
    exact List.prefix_append data rest
  · have hle := (hp.trans (strings_after a calls hm)).length_le
    rwa [toNat_value_returned hl hr, hv, ← List.length_append]

end Bounded

end Assembler

theorem Utf16.even_length {cs : List Char} {data : Bytes} (h : Utf16 cs data) :
    2 ∣ data.length := by
  induction h with
  | nil => exact Nat.dvd_zero 2
  | unit _ _ ih | pair _ _ _ _ ih =>
    simp only [List.length_cons]
    omega

namespace Assembler

theorem aligned_apply {a : Assembler} {c : Call} (h : 4 ∣ a.strings.length)
    (hc : ∀ data, c = .raw data → 4 ∣ data.length) : 4 ∣ (a.apply c).strings.length := by
  cases c with
  | emit d =>
    by_cases hl : d.args.length > maxArgs <;> simpa [apply, emit, hl] using h
  | unicode t =>
    have he := (utf16_utf16Bytes t).even_length
    simp only [apply, addUnicode, List.length_append, List.length_replicate]
    split <;> omega
  | ascii t =>
    simp only [apply, addAscii, List.length_append, List.length_replicate]
    omega
  | raw data =>
    have hd := hc data rfl
    simp only [apply, addRaw, List.length_append]
    omega

theorem aligned_run {a : Assembler} {calls : List Call} (h : 4 ∣ a.strings.length)
    (hraw : ∀ data, .raw data ∈ calls → 4 ∣ data.length) : 4 ∣ (a.run calls).strings.length := by
  induction calls generalizing a with
  | nil => exact h
  | cons c calls ih =>
    apply ih (aligned_apply h ?_)
    · exact fun data hm => hraw data (List.mem_cons_of_mem c hm)
    · rintro data rfl
      exact hraw data List.mem_cons_self

end Assembler

/-- Every string that an assembler stores stays where its reference says, closed by zeros and in
front of all later strings. With raw data in multiples of four bytes, all references and the end
of the data are such multiples. -/
theorem strings_stay_in_place (header : Header) (calls : List Call)
    (hl : (Assembler.run { header } calls).strings.length < 2 ^ 32) :
    (∀ n r, Assembler.returned { header } calls n = some r →
      Assembler.Keeps { header } calls n r) ∧
      ((∀ data, .raw data ∈ calls → 4 ∣ data.length) →
        (∀ n r, Assembler.returned { header } calls n = some r →
          4 ∣ r.argument.value.toNat) ∧
        4 ∣ (Assembler.run { header } calls).strings.length) := by
  have hnew : 4 ∣ (Assembler.mk header [] 0 []).strings.length := Nat.dvd_zero 4
  refine ⟨fun n r h => Assembler.keeps_returned hl h, fun hraw => ⟨fun n r h => ?_, ?_⟩⟩
  · rw [Assembler.toNat_value_returned hl h]
    exact Assembler.aligned_run hnew fun data hm => hraw data (List.mem_of_mem_take hm)
  · exact Assembler.aligned_run hnew hraw

theorem strings_stay_in_place_quoted :
    Assembler.Keeps { header := ⟨1, 0, 0⟩ } quotedCalls 0
        ⟨.unicode [.char 'h', .char '😀', .stray 0xFF], ⟨0, some 1, true⟩⟩ ∧
      Assembler.Keeps { header := ⟨1, 0, 0⟩ } quotedCalls 3
        ⟨.ascii [.char 'o', .char 'k'], ⟨15, some 2, true⟩⟩ ∧
      4 ∣ (Assembler.run { header := ⟨1, 0, 0⟩ }
        [.ascii [.char 'o'], .raw [1, 2, 3, 4], .unicode [.char 'k']]).strings.length := by
  obtain ⟨hkeeps, -⟩ := strings_stay_in_place ⟨1, 0, 0⟩ quotedCalls (by decide)
  obtain ⟨-, haligned⟩ := strings_stay_in_place ⟨1, 0, 0⟩
    [.ascii [.char 'o'], .raw [1, 2, 3, 4], .unicode [.char 'k']] (by decide)
  exact ⟨hkeeps 0 _ (by decide), hkeeps 3 _ (by decide), (haligned (by simp)).2⟩

end FlowPack.Script
