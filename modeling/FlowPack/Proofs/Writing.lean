import FlowPack.Container.Writer
import FlowPack.Proofs.Sizes

namespace FlowPack

/-- A piece that was given to a writer, and the answer. -/
structure Offer where
  piece : Bytes
  reply : Reply
  deriving DecidableEq, Repr

namespace Offer

def Accepted (o : Offer) : Prop := o.reply.fault = none ∧ o.reply.taken = o.piece.length

def CutSilently (o : Offer) : Prop := o.reply.fault = none ∧ o.reply.taken < o.piece.length

def error (o : Offer) : Option WriteError :=
  match o.reply.fault with
  | some text => some (.fault text)
  | none => if o.reply.taken = o.piece.length then none else some .short

theorem error_eq_none_iff {o : Offer} : o.error = none ↔ o.Accepted := by
  obtain ⟨piece, taken, fault⟩ := o
  cases fault <;> simp [error, Accepted]

theorem error_eq_short_iff {o : Offer} (h : o.reply.taken ≤ o.piece.length) :
    o.error = some .short ↔ o.CutSilently := by
  obtain ⟨piece, taken, fault⟩ := o
  cases fault with
  | some text => simp [error, CutSilently]
  | none => simp [error, CutSilently, Nat.lt_iff_le_and_ne, h]

end Offer

namespace Writer

variable {σ : Type}

/-- The writer puts the first bytes of a piece behind those it has, as many as it says. -/
structure Honest (w : Writer σ) (stored : σ → Bytes) : Prop where
  taken_le : ∀ piece s, (w piece s).1.taken ≤ piece.length
  stored_eq : ∀ piece s, stored (w piece s).2 = stored s ++ piece.take (w piece s).1.taken

def buffer : Writer Bytes := fun piece stored => (⟨piece.length, none⟩, stored ++ piece)

/-- The same writer, which also lists what it is given and what it answers. -/
def recorded (w : Writer σ) : Writer (σ × List Offer) := fun piece s =>
  ((w piece s.1).1, (w piece s.1).2, s.2 ++ [⟨piece, (w piece s.1).1⟩])

theorem honest_limited (limit : Nat) (silent : Bool) : (limited limit silent).Honest id where
  taken_le piece s := by
    unfold limited
    dsimp only
    split
    · exact Nat.le_refl _
    · next h => exact Nat.le_of_not_le h
  stored_eq piece s := by
    unfold limited
    dsimp only
    split
    · rw [List.take_length]
      rfl
    · rfl

end Writer

structure Written.Accounts (r : Written) (full before after : Bytes) (offers : List Offer) :
    Prop where
  stored : ∃ part, part <+: full ∧ after = before ++ part ∧ r.count = part.length
  whole : r.error = none → after = before ++ full
  short : r.error = some .short ↔ ∃ o ∈ offers, o.CutSilently
  stopped : ∀ o ∈ offers.dropLast, o.Accepted

section Pieces

variable {σ : Type} (w : Writer σ) (piece : Bytes) (rest : List Bytes) (s : σ)

theorem writePieces_of_error {e : WriteError} (h : (Offer.mk piece (w piece s).1).error = some e) :
    writePieces w (piece :: rest) s = (⟨(w piece s).1.taken, some e⟩, (w piece s).2) := by
  have hone : writeOne w piece s = (⟨(w piece s).1.taken, some e⟩, (w piece s).2) := by
    rw [← h]
    rfl
  rw [writePieces, hone]

theorem writePieces_of_accepted (h : (Offer.mk piece (w piece s).1).Accepted) :
    writePieces w (piece :: rest) s =
      (⟨piece.length + (writePieces w rest (w piece s).2).1.count,
        (writePieces w rest (w piece s).2).1.error⟩, (writePieces w rest (w piece s).2).2) := by
  have hone : writeOne w piece s = (⟨piece.length, none⟩, (w piece s).2) := by
    rw [← h.2, ← Offer.error_eq_none_iff.mpr h]
    rfl
  rw [writePieces, hone]

theorem writePieces_singleton : writePieces w [piece] s = writeOne w piece s := by
  cases h : (Offer.mk piece (w piece s).1).error with
  | some e =>
    rw [writePieces_of_error w piece [] s h, ← h]
    rfl
  | none =>
    have ha := Offer.error_eq_none_iff.mp h
    rw [writePieces_of_accepted w piece [] s ha, ← ha.2]
    exact congrArg (fun e => (Written.mk _ e, _)) h.symm

end Pieces

namespace Written.Accounts

variable {full before after : Bytes} {offers : List Offer}

theorem nothing (before : Bytes) : (Written.mk 0 none).Accounts [] before before [] where
  stored := ⟨[], List.prefix_refl _, (List.append_nil _).symm, rfl⟩
  whole _ := (List.append_nil _).symm
  short := by simp
  stopped o ho := absurd ho List.not_mem_nil

theorem of_error {piece : Bytes} {reply : Reply} {e : WriteError} (rest before : Bytes)
    (hle : reply.taken ≤ piece.length) (h : (Offer.mk piece reply).error = some e) :
    (Written.mk reply.taken (some e)).Accounts (piece ++ rest) before
      (before ++ piece.take reply.taken) [⟨piece, reply⟩] where
  stored := by
    have hp : piece.take reply.taken <+: piece := List.take_prefix ..
    refine ⟨_, hp.trans (List.prefix_append ..), rfl, ?_⟩
    rw [List.length_take, Nat.min_eq_left hle]
  whole hn := by cases hn
  short := by
    rw [← h, Offer.error_eq_short_iff hle]
    simp
  stopped o ho := absurd ho List.not_mem_nil

theorem cons {r : Written} {o : Offer} (ho : o.Accepted)
    (h : r.Accounts full (before ++ o.piece) after offers) :
    (Written.mk (o.piece.length + r.count) r.error).Accounts (o.piece ++ full) before after
      (o :: offers) where
  stored := by
    obtain ⟨part, hp, ha, hc⟩ := h.stored
    refine ⟨o.piece ++ part, (List.prefix_append_right_inj _).mpr hp, ?_, ?_⟩
    · rw [ha, List.append_assoc]
    · rw [hc, List.length_append]
  whole hn := by rw [h.whole hn, List.append_assoc]
  short := by
    have hno : ¬ o.CutSilently := fun hs => Nat.ne_of_lt hs.2 ho.2
    rw [h.short, List.exists_mem_cons_iff]
    simp only [hno, false_or]
  stopped := by
    cases offers with
    | nil => exact fun p hp => absurd hp List.not_mem_nil
    | cons p offers =>
      rw [List.dropLast_cons_cons, List.forall_mem_cons]
      exact ⟨ho, h.stopped⟩

end Written.Accounts

section Pieces

variable {σ : Type}

theorem writePieces_buffer (pieces : List Bytes) (stored : Bytes) :
    writePieces .buffer pieces stored =
      (⟨pieces.flatten.length, none⟩, stored ++ pieces.flatten) := by
  induction pieces generalizing stored with
  | nil => simp [writePieces]
  | cons piece rest ih =>
    rw [writePieces_of_accepted .buffer piece rest stored ⟨rfl, rfl⟩]
    simp only [Writer.buffer] at ih ⊢
    simp [ih]

theorem writePieces_accounts {w : Writer σ} {stored : σ → Bytes} (hw : w.Honest stored)
    (pieces : List Bytes) (s : σ) (log : List Offer) :
    ∃ r s' offers, writePieces w pieces s = (r, s') ∧
      writePieces w.recorded pieces (s, log) = (r, s', log ++ offers) ∧
      r.Accounts pieces.flatten (stored s) (stored s') offers := by
  induction pieces generalizing s log with
  | nil => exact ⟨⟨0, none⟩, s, [], rfl, by simp [writePieces], .nothing _⟩
  | cons piece rest ih =>
    have hle := hw.taken_le piece s
    have hst := hw.stored_eq piece s
    rw [List.flatten_cons]
    cases he : (Offer.mk piece (w piece s).1).error with
    | some e =>
      refine ⟨_, _, _, writePieces_of_error w piece rest s he,
        writePieces_of_error w.recorded piece rest (s, log) he, ?_⟩
      rw [hst]
      exact .of_error rest.flatten (stored s) hle he
    | none =>
      have ha := Offer.error_eq_none_iff.mp he
      obtain ⟨r, s', offers, hr, hlog, hacc⟩ :=
        ih (w piece s).2 (log ++ [⟨piece, (w piece s).1⟩])
      rw [hst, ha.2, List.take_length] at hacc
      refine ⟨_, s', _ :: offers, ?_, ?_, hacc.cons ha⟩
      · rw [writePieces_of_accepted w piece rest s ha, hr]
      · rw [writePieces_of_accepted w.recorded piece rest (s, log) ha]
        simp only [Writer.recorded] at hlog ⊢
        rw [hlog]
        simp

end Pieces

/-- Whatever an honest writer stores, the outcome accounts for it. -/
def Reports (write : ∀ σ : Type, Writer σ → σ → Written × σ) (full : Bytes) : Prop :=
  ∀ (σ : Type) (w : Writer σ) (stored : σ → Bytes), w.Honest stored → ∀ s,
    ∃ r s' offers, write σ w s = (r, s') ∧ write _ w.recorded (s, []) = (r, s', offers) ∧
      r.Accounts full (stored s) (stored s') offers

namespace Reports

variable {write : ∀ σ : Type, Writer σ → σ → Written × σ}

theorem of_pieces {pieces : List Bytes} (h : ∀ σ w, write σ w = writePieces w pieces) :
    Reports write pieces.flatten := by
  intro σ w stored hw s
  simp only [h]
  exact writePieces_accounts hw pieces s []

theorem limited {full : Bytes} (h : Reports write full) (limit : Nat) (silent : Bool) :
    ∃ part, part <+: full ∧
      write _ (.limited limit silent) [] = ((write _ (.limited limit silent) []).1, part) := by
  obtain ⟨r, s, offers, hrun, -, hacc⟩ := h _ _ _ (Writer.honest_limited limit silent) []
  obtain ⟨part, hp, hs, -⟩ := hacc.stored
  obtain rfl : s = part := hs
  rw [hrun]
  exact ⟨s, hp, rfl⟩

end Reports

namespace Container

def Section.Output (s : Section) (piece : Bytes) : Prop :=
  s.writeTo .buffer [] = (⟨piece.length, none⟩, piece)

theorem Section.writeTo_eq {s : Section} (hs : s.Writable) :
    ∃ pieces, pieces.flatten = s.bytes ∧
      ∀ (σ : Type) (w : Writer σ), s.writeTo w = writePieces w pieces := by
  obtain ⟨lead, rest, hp, hb⟩ := parts?_append hs
  refine ⟨[lead, rest], by rw [← hb]; simp, fun σ w => ?_⟩
  funext st
  rw [writeTo, hp]

theorem Section.output_bytes {s : Section} (hs : s.Writable) : s.Output s.bytes := by
  obtain ⟨pieces, hb, hw⟩ := writeTo_eq hs
  rw [Output, hw, writePieces_buffer, hb, List.nil_append]

theorem writeTo_eq {c : Container} {data : Bytes} (h : c.encode = .ok data) (σ : Type)
    (w : Writer σ) : c.writeTo w = writePieces w [data] := by
  funext s
  rw [writeTo, h, writePieces_singleton]

/-- Of a section or a container, a writer that cuts pieces or fails ends up with the first bytes,
and their number is returned. Without an error all bytes are there, and a cut that the writer
itself has not reported is told as one. -/
theorem partial_writes_are_reported :
    (∀ s : Section, s.Writable → ∃ full, s.Output full ∧ Reports (fun _ => s.writeTo) full) ∧
      ∀ c : Container, c.tempos = [] →
        ∃ data, c.encode = .ok data ∧ Reports (fun _ => c.writeTo) data := by
  constructor
  · intro s hs
    obtain ⟨pieces, hb, hw⟩ := Section.writeTo_eq hs
    refine ⟨s.bytes, Section.output_bytes hs, ?_⟩
    rw [← hb]
    exact .of_pieces hw
  · intro c ht
    have he := encode_eq_ok ht
    have hr := Reports.of_pieces (writeTo_eq he)
    rw [List.flatten_singleton] at hr
    exact ⟨_, he, hr⟩

theorem partial_writes_are_reported_limited :
    (∃ full part, (Section.flow 4 [1, 2, 3]).Output full ∧ part <+: full ∧
      (Section.flow 4 [1, 2, 3]).writeTo (.limited 13 true) [] = (⟨13, some .short⟩, part)) ∧
    ∃ data part, (shuffled 4).encode = .ok data ∧ part <+: data ∧
      (shuffled 4).writeTo (.limited 9 false) [] = (⟨9, some (.fault "writer full")⟩, part) := by
  obtain ⟨hsection, hcontainer⟩ := partial_writes_are_reported
  obtain ⟨full, ho, hr⟩ := hsection (.flow 4 [1, 2, 3]) trivial
  obtain ⟨part, hp, hrun⟩ := hr.limited 13 true
  obtain ⟨data, he, hr'⟩ := hcontainer (shuffled 4) rfl
  obtain ⟨part', hp', hrun'⟩ := hr'.limited 9 false
  have hshort : ((Section.flow 4 [1, 2, 3]).writeTo (.limited 13 true) []).1 =
      ⟨13, some .short⟩ := by decide
  have hfull : ((shuffled 4).writeTo (.limited 9 false) []).1 =
      ⟨9, some (.fault "writer full")⟩ := by decide
  rw [hshort] at hrun
  rw [hfull] at hrun'
  exact ⟨⟨full, part, ho, hp, hrun⟩, data, part', he, hp', hrun'⟩

end Container

end FlowPack
