import FlowPack.Conversion.File
import FlowPack.Proofs.Conversion
import FlowPack.Proofs.Directories
import FlowPack.Proofs.Staging

namespace FlowPack

open Disk (place)
open Staging (Course Event Ready Session written)

/-- The file at a path holds the data, and nothing else has changed. -/
structure Replaced (path : String) (data : Bytes) (d d' : Disk) : Prop where
  node : d'.node? path = some (.file data)
  temp : d'.get? (place (Path.tempOf path)) = none
  kept : Disk.KeptBut [path, Path.tempOf path] d d'

theorem Replaced.content {path : String} {data : Bytes} {d d' : Disk}
    (h : Replaced path data d d') : d'.content path = .ok data := by
  have hn := h.node
  unfold Disk.content
  unfold Disk.node? at hn
  split at hn
  · next hf => rw [hf, Option.some.inj hn]
  · cases hn

/-- Nothing has changed but that there is no temporary file. -/
structure Withdrawn (path : String) (d d' : Disk) : Prop where
  temp : d'.get? (place (Path.tempOf path)) = none
  kept : Disk.KeptBut [Path.tempOf path] d d'

namespace Staging.Course

variable {path : String} {d : Disk} {events : List Event} {s : Session}

theorem replaced (h : Course path d events s) (hp : events.any Event.publishes = true) :
    Replaced path (written events) d s.disk where
  node := by rw [h.node?_path, if_pos hp]
  temp := by rw [h.temp, if_pos (cleared_of_published hp)]
  kept := h.kept

theorem withdrawn (h : Course path d events s) (hc : events.any Event.clears = true)
    (hp : events.any Event.publishes = false) : Withdrawn path d s.disk where
  temp := by rw [h.temp, if_pos hc]
  kept := by
    apply h.dirs.keptBut
    intro l hl
    by_cases hpath : l = place path
    · rw [hpath, h.final, hp]
      rfl
    · exact h.others l hpath (hl _ (by simp))

theorem withdrawn_cleanup (h : Course path d events s) (hr : Ready path d)
    (hp : events.any Event.publishes = false) : Withdrawn path d (s.call .cleanup).2.disk := by
  apply (h.cleanup hr).withdrawn
  · simp [Event.clears]
  · simp [hp, Event.publishes]

theorem writeAll (h : Course path d events s) (ho : events.any (·.call.closes) = false)
    (pieces : List Bytes) :
    ∃ events' t, s.file.writeAll pieces s.disk = .ok (t.file, t.disk) ∧ Course path d events' t ∧
      events'.any (·.call.closes) = false ∧ written events' = written events ++ pieces.flatten := by
  induction pieces generalizing events s with
  | nil => exact ⟨events, s, rfl, h, ho, (List.append_nil _).symm⟩
  | cons piece rest ih =>
    have hopen : s.file.isOpen = true := by
      rw [h.isOpen, ho]
      rfl
    have hwrite : s.file.write piece s.disk = .ok
        ({ s.file with written := s.file.written + piece.length },
          s.disk.append s.file.location piece) := by
      rw [StagedFile.write, if_pos hopen]
    -- A write does not close the file, so the rest is taken as well.
    have hstep := h.write piece
    simp only [Session.call, hwrite] at hstep
    obtain ⟨events', t, hrest, ht, hclosed, hdata⟩ := ih hstep (by rw [List.any_append, ho]; rfl)
    refine ⟨events', t, ?_, ht, hclosed, ?_⟩
    · rw [StagedFile.writeAll, hwrite]
      exact hrest
    · rw [hdata, Staging.written_concat, List.append_assoc]
      rfl

end Staging.Course

/-- How publishing the data can end. `made` says that the data could be made. -/
inductive Published {α β : Type} (path : String) (data : Bytes) (made : Prop) (d : Disk) :
    Except α β → Disk → Prop
  | unstaged {e : StageError} {a : α} (hnew : StagedFile.new path d = .error e) :
    Published path data made d (.error a) d
  | withdrawn {staged : StagedFile × Disk} {a : α} {d' : Disk}
    (hnew : StagedFile.new path d = .ok staged) (hfail : made → ¬ d.Accepts path)
    (h : Withdrawn path d d') : Published path data made d (.error a) d'
  | replaced {staged : StagedFile × Disk} {b : β} {d' : Disk}
    (hnew : StagedFile.new path d = .ok staged) (hmade : made) (haccepts : d.Accepts path)
    (h : Replaced path data d d') : Published path data made d (.ok b) d'

namespace Published

variable {α β α' β' : Type} {path : String} {data : Bytes} {made : Prop} {d d' : Disk}
  {r : Except α β}

theorem relabel_error {a : α} (h : Published path data made d (.error a : Except α β) d')
    (a' : α') : Published path data made d (.error a' : Except α' β') d' := by
  cases h with
  | unstaged hnew => exact .unstaged hnew
  | withdrawn hnew hfail h => exact .withdrawn hnew hfail h

theorem relabel_ok {b : β} (h : Published path data made d (.ok b : Except α β) d') (b' : β') :
    Published path data made d (.ok b' : Except α' β') d' := by
  cases h with
  | replaced hnew hmade haccepts h => exact .replaced hnew hmade haccepts h

theorem eq_ok_iff (h : Published path data made d r d') :
    (∃ b, r = .ok b) ↔
      (∃ staged, StagedFile.new path d = .ok staged) ∧ made ∧ d.Accepts path := by
  cases h with
  | unstaged hnew => simp [hnew]
  | withdrawn hnew hfail h =>
    constructor
    · rintro ⟨b, hb⟩
      cases hb
    · rintro ⟨-, hmade, haccepts⟩
      exact absurd haccepts (hfail hmade)
  | replaced hnew hmade haccepts h =>
    exact ⟨fun _ => ⟨⟨_, hnew⟩, hmade, haccepts⟩, fun _ => ⟨_, rfl⟩⟩

theorem of_error {a : α} (h : Published path data made d (.error a : Except α β) d') :
    Disk.KeptBut [Path.tempOf path] d d' ∧
      ((∃ staged, StagedFile.new path d = .ok staged) →
        d'.get? (place (Path.tempOf path)) = none) ∧
      ((¬ ∃ staged, StagedFile.new path d = .ok staged) → d' = d) := by
  cases h with
  | unstaged hnew => exact ⟨.refl _ _, by simp [hnew], fun _ => rfl⟩
  | withdrawn hnew hfail h => exact ⟨h.kept, fun _ => h.temp, fun hn => absurd ⟨_, hnew⟩ hn⟩

theorem of_ok {b : β} (h : Published path data made d (.ok b : Except α β) d') :
    Replaced path data d d' := by
  cases h with
  | replaced hnew hmade haccepts h => exact h

end Published

variable {ε : Type}

theorem complete_published {path : String} {d d₀ : Disk} {f : StagedFile}
    (hnew : StagedFile.new path d = .ok (f, d₀)) (sync : Bool) (c : Content ε) :
    Published path c.pieces.flatten (c.outcome = .ok ()) d (f.complete sync c d₀).1
      (f.complete sync c d₀).2 := by
  obtain ⟨hr, hstart⟩ := Staging.new_eq_ok hnew
  obtain ⟨events, t, hwrite, ht, hopen, hdata⟩ := hstart.writeAll rfl c.pieces
  have hcleared := Course.not_cleared_of_not_closed hopen
  have hpublished := Course.not_published_of_not_cleared hcleared
  have hsync : (if sync then t.file.sync else .ok ()) = .ok () := by
    have : t.file.isOpen = true := by rw [ht.isOpen, hopen]; rfl
    simp [StagedFile.sync, this]
  simp only [StagedFile.complete, hwrite, hsync]
  cases hmade : c.outcome with
  | error e => exact .withdrawn hnew (fun h => by cases h) (ht.withdrawn_cleanup hr hpublished)
  | ok u =>
    have hmoved := ht.finalize hr
    rw [ht.call_finalize] at hmoved
    simp only [StagedFile.finalize, StagedFile.temp, ht.target]
    cases hren : t.disk.rename (Path.tempOf path) path with
    | error e =>
      rw [hren] at hmoved
      -- The temporary file is still there, so the path itself did not take it.
      have hrefused : ¬ d.Accepts path := by
        intro hacc
        rw [(ht.rename_eq_ok_iff hr).mpr ⟨hcleared, hacc, rfl⟩] at hren
        cases hren
      have hunmoved : (events ++ [Event.mk .finalize (.error (.rename e))]).any Event.publishes =
          false := by
        simp [hpublished, Event.publishes]
      exact .withdrawn hnew (fun _ => hrefused) (hmoved.withdrawn_cleanup hr hunmoved)
    | ok d' =>
      rw [hren] at hmoved
      have hacc := ((ht.rename_eq_ok_iff hr).mp hren).2.1
      have hdone := hmoved.replaced (by simp [Event.publishes])
      have hall : written (events ++ [⟨.finalize, .ok ()⟩]) = c.pieces.flatten := by
        rw [Staging.written_concat, hdata]
        exact List.append_nil _
      rw [hall] at hdone
      exact .replaced hnew trivial hacc hdone

theorem publish_published (path : String) (sync : Bool) (c : Content ε) (d : Disk) :
    Published path c.pieces.flatten (c.outcome = .ok ()) d (publish path sync c d).1
      (publish path sync c d).2 := by
  unfold publish
  split
  · next e hnew => exact .unstaged hnew
  · next f d₀ hnew => exact complete_published hnew sync c

theorem publishBytes_published (path : String) (sync : Bool) (data : Bytes) (d : Disk) :
    Published path data True d (publishBytes path sync data d).1
      (publishBytes path sync data d).2 := by
  have h := publish_published path sync (⟨[data], .ok ()⟩ : Content Empty) d
  rw [List.flatten_singleton, eq_self] at h
  unfold publishBytes
  split
  · next hp =>
    rw [hp] at h
    exact h.relabel_ok ()
  · next e d' hp =>
    rw [hp] at h
    exact h.relabel_error e
  · next e _ _ => cases e

theorem exists_new_iff {path : String} {d : Disk} :
    (∃ staged, StagedFile.new path d = .ok staged) ↔ d.Accepts (Path.tempOf path) := by
  rw [← Disk.exists_create_iff]
  unfold StagedFile.new
  split
  · next h => simp [h]
  · next h => simp [h]

/-- Publishing puts the whole content at its path, or leaves what is there. The temporary file is
gone in both cases. If it cannot be made, nothing happens whatever the content would be. -/
theorem publish_all_or_nothing (path : String) (sync : Bool) (c : Content ε) (d : Disk) :
    ((publish path sync c d).1 = .ok () ↔
        d.Accepts (Path.tempOf path) ∧ c.outcome = .ok () ∧ d.Accepts path) ∧
      ((publish path sync c d).1 = .ok () →
        (publish path sync c d).2.content path = .ok c.pieces.flatten ∧
          (publish path sync c d).2.get? (place (Path.tempOf path)) = none) ∧
      (∀ staged e, StagedFile.new path d = .ok staged → (publish path sync c d).1 = .error e →
        (publish path sync c d).2.node? path = d.node? path ∧
          (publish path sync c d).2.get? (place (Path.tempOf path)) = none) ∧
      (∀ e, StagedFile.new path d = .error e →
        ∀ {ε' : Type} (c' : Content ε'), publish path sync c' d = (.error (.stage e), d)) ∧
      Disk.KeptBut [path, Path.tempOf path] d (publish path sync c d).2 := by
  have hpub := publish_published path sync c d
  refine ⟨?_, ?_, ?_, ?_, ?_⟩
  · rw [← exists_new_iff, ← hpub.eq_ok_iff]
    exact ⟨fun h => ⟨(), h⟩, fun ⟨_, h⟩ => h⟩
  · intro hok
    rw [hok] at hpub
    exact ⟨hpub.of_ok.content, hpub.of_ok.temp⟩
  · intro staged e hnew hfail
    rw [hfail] at hpub
    obtain ⟨hkept, htemp, -⟩ := hpub.of_error
    refine ⟨hkept.nodes path ?_, htemp ⟨staged, hnew⟩⟩
    intro p hp
    exact List.mem_singleton.mp hp ▸ (Disk.place_tempOf_ne path).symm
  · intro e hnew ε' c'
    unfold publish
    split
    · next hnew' => rw [Except.error.inj (hnew'.symm.trans hnew)]
    · next hnew' => cases hnew'.symm.trans hnew
  · cases hpub' : (publish path sync c d).1 with
    | error e =>
      rw [hpub'] at hpub
      exact hpub.of_error.1.mono (by simp)
    | ok u =>
      rw [hpub'] at hpub
      exact hpub.of_ok.kept

def clutter : Disk :=
  ⟨[(["old"], .file [1]), ([".old.tmp"], .file [9]), (["dir"], .dir), ([".busy.tmp"], .dir)]⟩

theorem publish_all_or_nothing_clutter :
    (publish "old" true (⟨[[2], [3]], .ok ()⟩ : Content Unit) clutter).2.content "old" =
        .ok [2, 3] ∧
      (publish "old" true (⟨[[2], [3]], .error ()⟩ : Content Unit) clutter).2.node? "old" =
        some (.file [1]) ∧
      (publish "dir" false (⟨[[2]], .ok ()⟩ : Content Unit) clutter).2.get? [".dir.tmp"] = none ∧
      (publish "busy" false (⟨[[2]], .ok ()⟩ : Content Unit) clutter).2 = clutter := by
  have hold : StagedFile.new "old" clutter =
      .ok (⟨"old", [".old.tmp"], true, 0⟩, clutter.set [".old.tmp"] (.file [])) := by decide
  have hdir : StagedFile.new "dir" clutter =
      .ok (⟨"dir", [".dir.tmp"], true, 0⟩, clutter.set [".dir.tmp"] (.file [])) := by decide
  have hbusy : StagedFile.new "busy" clutter =
      .error (.create (.opening ".busy.tmp" .isDirectory)) := by decide
  have haccepts : clutter.Accepts "old" :=
    ⟨⟨by decide, by decide⟩, by decide, by decide, by decide⟩
  refine ⟨?_, ?_, ?_, ?_⟩
  · obtain ⟨hiff, hdone, -⟩ :=
      publish_all_or_nothing "old" true (⟨[[2], [3]], .ok ()⟩ : Content Unit) clutter
    exact (hdone (hiff.mpr ⟨exists_new_iff.mp ⟨_, hold⟩, rfl, haccepts⟩)).1
  · obtain ⟨hiff, -, hundone, -⟩ :=
      publish_all_or_nothing "old" true (⟨[[2], [3]], .error ()⟩ : Content Unit) clutter
    cases hr : (publish "old" true (⟨[[2], [3]], .error ()⟩ : Content Unit) clutter).1 with
    | error e => exact (hundone _ e hold hr).1.trans (by decide)
    | ok u => cases (hiff.mp hr).2.1
  · obtain ⟨hiff, -, hundone, -⟩ :=
      publish_all_or_nothing "dir" false (⟨[[2]], .ok ()⟩ : Content Unit) clutter
    cases hr : (publish "dir" false (⟨[[2]], .ok ()⟩ : Content Unit) clutter).1 with
    | error e => exact (hundone _ e hdir hr).2
    | ok u => exact absurd (hiff.mp hr).2.2.noDir (by decide)
  · obtain ⟨-, -, -, hunstaged, -⟩ :=
      publish_all_or_nothing "busy" false (⟨[[2]], .ok ()⟩ : Content Unit) clutter
    rw [hunstaged _ hbusy]

theorem openInput_eq_ok_iff {unpack : Unpacker} {d : Disk} {input : String} {i : Input} :
    openInput unpack d input = .ok i ↔
      ∃ data, d.content input = .ok data ∧
        i = ⟨Codec.detect data, unpack (Codec.detect data) data⟩ := by
  unfold openInput
  split
  · next h => simp [h]
  · next h => simp [h]
  · next data h => simp [h, eq_comm]

namespace Converter

/-- The file at a path holds the data of a script that can be converted. -/
structure Converts (c : Converter) (d : Disk) (input : String) (data : Bytes) (r : Converted) :
    Prop where
  content : d.content input = .ok data
  result : (convert c.tags (c.unpack (Codec.detect data) data)).result = .ok r

/-- The conversion of a file gets as far as its temporary file. -/
def Stages (c : Converter) (input output : String) (d : Disk) : Prop :=
  (∃ data r, c.Converts d input data r) ∧ ∃ staged, StagedFile.new output d = .ok staged

variable {c : Converter} {input : String} {d : Disk} (output : String) (tempos : List String)

theorem convertFile_of_not_converts (h : ¬ ∃ data r, c.Converts d input data r) :
    (∃ e, (c.convertFile input output tempos d).result = .error e) ∧
      (c.convertFile input output tempos d).disk = d := by
  unfold convertFile
  dsimp only
  split
  · exact ⟨⟨_, rfl⟩, rfl⟩
  · next i hi =>
    obtain ⟨data, hdata, rfl⟩ := openInput_eq_ok_iff.mp hi
    split
    · exact ⟨⟨_, rfl⟩, rfl⟩
    · next r hr => exact absurd ⟨data, r, hdata, hr⟩ h

theorem convertFile_of_converts {data bytes : Bytes} {r : Converted}
    (h : c.Converts d input data r) (he : r.container.encode = .ok bytes) :
    Published output bytes True d (c.convertFile input output tempos d).result
        (c.convertFile input output tempos d).disk ∧
      ∀ s, (c.convertFile input output tempos d).result = .ok s →
        s = ⟨input, output, Codec.detect data, r.summary⟩ := by
  have hopen : openInput c.unpack d input = .ok _ :=
    openInput_eq_ok_iff.mpr ⟨data, h.content, rfl⟩
  have hpub := publishBytes_published output c.sync bytes d
  simp only [convertFile, hopen, h.result, publishContainer, he]
  rcases hp : publishBytes output c.sync bytes d with ⟨e | u, d'⟩
  · rw [hp] at hpub
    exact ⟨hpub.relabel_error _, fun s hs => by cases hs⟩
  · rw [hp] at hpub
    exact ⟨hpub.relabel_ok _, fun s hs => (Except.ok.inj hs).symm⟩

/-- Converting a file puts the whole container at the output path or nothing at all. It fails with
no trace, but that an older temporary file is gone if the new one had been made. -/
theorem convertFile_all_or_nothing (c : Converter) (input output : String) (tempos : List String)
    (d : Disk) :
    ((∃ s, (c.convertFile input output tempos d).result = .ok s) ↔
        c.Stages input output d ∧ d.Accepts output) ∧
      (∀ e, (c.convertFile input output tempos d).result = .error e →
        Disk.KeptBut [Path.tempOf output] d (c.convertFile input output tempos d).disk ∧
          (c.Stages input output d →
            (c.convertFile input output tempos d).disk.get? (place (Path.tempOf output)) = none) ∧
          (¬ c.Stages input output d → (c.convertFile input output tempos d).disk = d)) ∧
      ∀ s, (c.convertFile input output tempos d).result = .ok s →
        ∃ data r bytes, c.Converts d input data r ∧ r.container.encode = .ok bytes ∧
          s = ⟨input, output, Codec.detect data, r.summary⟩ ∧
          s.summary.size = UInt32.ofNat bytes.length ∧
          (s.summary.size.toNat = bytes.length ↔ bytes.length < 2 ^ 32) ∧
          Replaced output bytes d (c.convertFile input output tempos d).disk := by
  by_cases hconv : ∃ data r, c.Converts d input data r
  · obtain ⟨data, r, h⟩ := hconv
    obtain ⟨bytes, he, hsize⟩ := encode_of_convert h.result
    obtain ⟨hpub, hsummary⟩ := convertFile_of_converts output tempos h he
    have hstages : c.Stages input output d ↔ ∃ staged, StagedFile.new output d = .ok staged :=
      and_iff_right ⟨data, r, h⟩
    rw [hstages]
    refine ⟨?_, ?_, ?_⟩
    · rw [hpub.eq_ok_iff, true_and]
    · intro e hfail
      rw [hfail] at hpub
      exact hpub.of_error
    · intro s hok
      have hs := hsummary s hok
      rw [hok] at hpub
      refine ⟨data, r, bytes, h, he, hs, ?_, ?_, hpub.of_ok⟩
      · rw [hs]
        exact hsize
      · rw [hs, hsize, UInt32.toNat_ofNat']
        exact Nat.mod_eq_iff_lt (by decide)
  · obtain ⟨⟨e, hfail⟩, hdisk⟩ := convertFile_of_not_converts output tempos hconv
    have hstages : ¬ c.Stages input output d := fun h => hconv h.1
    rw [hfail, hdisk]
    refine ⟨?_, fun _ _ => ⟨.refl _ _, fun h => absurd h hstages, fun _ => rfl⟩,
      fun s hs => by cases hs⟩
    simp [hstages]

def desk : Disk := ⟨[(["in"], .file greeting.bytes), (["old"], .file [1]), (["dir"], .dir)]⟩

theorem convertFile_all_or_nothing_greeting :
    let c : Converter := ⟨unpackFile, .standard, true⟩
    (∃ s bytes, (c.convertFile "in" "old" [] desk).result = .ok s ∧
        Replaced "old" bytes desk (c.convertFile "in" "old" [] desk).disk) ∧
      ∃ e, (c.convertFile "in" "dir" [] desk).result = .error e ∧
        (c.convertFile "in" "dir" [] desk).disk.get? [".dir.tmp"] = none := by
  intro c
  have hconv : ∃ data r, c.Converts desk "in" data r := by
    have hd : (Script.decode .standard ⟨greeting.bytes, none⟩).result =
        .ok (greeting.program .standard) := Script.decode_words (by decide)
    obtain ⟨r, hr, -⟩ := convert_of_relocated (p := greeting.program .standard) (by decide)
    exact ⟨greeting.bytes, r, by decide, convert_eq_ok_iff.mpr ⟨_, hd, hr⟩⟩
  constructor
  · have hstages : c.Stages "in" "old" desk := by
      refine ⟨hconv, ⟨⟨"old", [".old.tmp"], true, 0⟩, desk.set [".old.tmp"] (.file [])⟩, ?_⟩
      decide
    have haccepts : desk.Accepts "old" :=
      ⟨⟨by decide, by decide⟩, by decide, by decide, by decide⟩
    obtain ⟨hiff, -, hdone⟩ := convertFile_all_or_nothing c "in" "old" [] desk
    obtain ⟨s, hs⟩ := hiff.mpr ⟨hstages, haccepts⟩
    obtain ⟨-, -, bytes, -, -, -, -, -, h⟩ := hdone s hs
    exact ⟨s, bytes, hs, h⟩
  · have hstages : c.Stages "in" "dir" desk := by
      refine ⟨hconv, ⟨⟨"dir", [".dir.tmp"], true, 0⟩, desk.set [".dir.tmp"] (.file [])⟩, ?_⟩
      decide
    have haccepts : ¬ desk.Accepts "dir" := fun h => h.noDir (by decide)
    obtain ⟨hiff, hundone, -⟩ := convertFile_all_or_nothing c "in" "dir" [] desk
    cases hr : (c.convertFile "in" "dir" [] desk).result with
    | error e => exact ⟨e, rfl, (hundone e hr).2.1 hstages⟩
    | ok s => exact absurd (hiff.mp ⟨s, hr⟩).2 haccepts

def silence (n : Nat) : Script.Listing := ⟨⟨0, 0, 0⟩, [], List.replicate n 0⟩

theorem convert_silence (n : Nat) :
    ∃ r bytes, (convert .standard ⟨(silence n).bytes, none⟩).result = .ok r ∧
      r.container.encode = .ok bytes ∧ bytes.length = 48 + n ∧
      r.summary.size = UInt32.ofNat (48 + n) := by
  have hd : (Script.decode .standard ⟨(silence n).bytes, none⟩).result =
      .ok ((silence n).program .standard) := Script.decode_words fun i hi => by cases hi
  obtain ⟨r, hr, hpacked⟩ := convert_of_relocated (p := (silence n).program .standard) rfl
  have hc := convert_eq_ok_iff.mpr ⟨_, hd, hr⟩
  obtain ⟨bytes, he, hsize⟩ := encode_of_convert hc
  -- The zeros are never written out: their number stays a variable.
  have hlen : bytes.length = 48 + n := by
    rw [hpacked, Container.encode_eq_ok rfl] at he
    have hbody : packedLength ((silence n).program .standard) =
        48 + 0 + 5 * 0 + (List.replicate n (0 : UInt8)).length := rfl
    rw [← Except.ok.inj he, length_sectionsBytes_packed, hbody, List.length_replicate]
  exact ⟨r, bytes, hc, he, hlen, hlen ▸ hsize⟩

def tray (data : Bytes) : Disk := ⟨[(["in"], .file data)]⟩

theorem accepts_tray (data : Bytes) :
    (tray data).Accepts "out" ∧ (tray data).Accepts (Path.tempOf "out") :=
  ⟨⟨⟨by decide, rfl⟩, nofun, rfl, by decide⟩, ⟨⟨by decide, rfl⟩, nofun, rfl, by decide⟩⟩

theorem convertFile_silence (n : Nat) :
    let f := (⟨unpackFile, .standard, true⟩ : Converter).convertFile "in" "out" []
      (tray (silence n).bytes)
    ∃ s bytes, f.result = .ok s ∧ f.disk.content "out" = .ok bytes ∧ bytes.length = 48 + n ∧
      s.summary.size = UInt32.ofNat (48 + n) := by
  intro f
  obtain ⟨r, bytes, hc, he, hlen, hsize⟩ := convert_silence n
  have hconv : (⟨unpackFile, .standard, true⟩ : Converter).Converts (tray (silence n).bytes) "in"
      (silence n).bytes r := ⟨rfl, hc⟩
  obtain ⟨hpub, hsummary⟩ := convertFile_of_converts "out" [] hconv he
  obtain ⟨haccepts, htemp⟩ := accepts_tray (silence n).bytes
  obtain ⟨s, hok⟩ := hpub.eq_ok_iff.mpr ⟨exists_new_iff.mpr htemp, trivial, haccepts⟩
  rw [hok] at hpub
  exact ⟨s, bytes, hok, hpub.of_ok.content, hlen, hsummary s hok ▸ hsize⟩

/-- A container of `2 ^ 32` bytes is published, and its summary says that it is empty. -/
theorem published_size_wraps :
    let f := (⟨unpackFile, .standard, true⟩ : Converter).convertFile "in" "out" []
      (tray (silence (2 ^ 32 - 48)).bytes)
    ∃ s bytes, f.result = .ok s ∧ f.disk.content "out" = .ok bytes ∧ bytes.length = 2 ^ 32 ∧
      s.summary.size = 0 := by
  obtain ⟨s, bytes, hok, hcontent, hlen, hsize⟩ := convertFile_silence (2 ^ 32 - 48)
  exact ⟨s, bytes, hok, hcontent, hlen, hsize⟩

end Converter

end FlowPack
