import FlowPack.Archive.Unpack
import FlowPack.Proofs.Directories
import FlowPack.Proofs.Publishing
import FlowPack.Proofs.Scanning

namespace FlowPack.Archive

open Disk (place)

/-- The base that is chosen: the one given, else that of the variant given, else that of the
settings. -/
inductive ChosenBase (o : UnpackOptions) (s : Settings) : UInt32 → Prop
  | given {base : UInt32} (h : o.base = some base) : ChosenBase o s base
  | variant {v : Variant} (h : o.base = none) (hne : o.variant ≠ [])
    (hv : Variant.parse? o.variant = some v) : ChosenBase o s v.base
  | settings {base : UInt32} (h : o.base = none) (hnil : o.variant = [])
    (hs : s.base = .ok base) : ChosenBase o s base

theorem chooseBase_eq_ok_iff {o : UnpackOptions} {s : Settings} {base : UInt32} :
    o.chooseBase s = .ok base ↔ ChosenBase o s base := by
  constructor
  · intro h
    unfold UnpackOptions.chooseBase at h
    split at h
    · next hb => exact .given (Except.ok.inj h ▸ hb)
    · next hb =>
      split at h
      · next hnil => exact .settings hb hnil h
      · next hne =>
        unfold variantBase at h
        split at h
        · next v hv => exact Except.ok.inj h ▸ .variant hb hne hv
        · cases h
  · intro h
    unfold UnpackOptions.chooseBase
    cases h with
    | given h => rw [h]
    | variant h hne hv => rw [h, if_neg hne, variantBase, hv]
    | settings h hnil hs => rw [h, if_pos hnil, hs]

section Survey

variable (expand : Unpacker) (s : Settings) (o : UnpackOptions) (archive : String) (d : Disk)

/-- What can keep an archive from being read. -/
inductive Obstacle : UnpackError → Prop
  | base {e : BaseError} (h : o.chooseBase s = .error e) : Obstacle (.base e)
  | labels {e : LabelsError} (h : Labels.load? d (o.chooseNames s) = .error e) :
    Obstacle (.labels e)
  | input {e : InputError} (h : openInput expand d archive = .error e) : Obstacle (.input e)
  | scan {base : UInt32} {input : Input} {e : ScanError} (hbase : o.chooseBase s = .ok base)
    (hinput : openInput expand d archive = .ok input)
    (h : (scan .standard input.source base).result = .error e) : Obstacle (.scan archive e)

structure Surveyed (base : UInt32) (labels : Option Labels) (report : Report) : Prop where
  chosen : ChosenBase o s base
  loaded : Labels.load? d (o.chooseNames s) = .ok labels
  scanned : ∃ input, openInput expand d archive = .ok input ∧
    (scan .standard input.source base).result = .ok report

theorem unpack_cases (outdir : String) :
    (∃ e, Obstacle expand s o archive d e ∧
        (unpack expand s o archive outdir d).result = .error e ∧
        (unpack expand s o archive outdir d).disk = d) ∨
      ∃ base labels report, Surveyed expand s o archive d base labels report ∧
        (unpack expand s o archive outdir d).result =
          ((Listing.ofReport archive outdir labels report).publish s.syncs d).1.map
            (fun _ => Listing.ofReport archive outdir labels report) ∧
        (unpack expand s o archive outdir d).disk =
          ((Listing.ofReport archive outdir labels report).publish s.syncs d).2 := by
  unfold unpack gather
  cases hbase : o.chooseBase s with
  | error e => exact .inl ⟨_, .base hbase, rfl, rfl⟩
  | ok base =>
    cases hlabels : Labels.load? d (o.chooseNames s) with
    | error e => exact .inl ⟨_, .labels hlabels, rfl, rfl⟩
    | ok labels =>
      cases hinput : openInput expand d archive with
      | error e => exact .inl ⟨_, .input hinput, rfl, rfl⟩
      | ok input =>
        dsimp only
        cases hscan : (scan .standard input.source base).result with
        | error e => exact .inl ⟨_, .scan hbase hinput hscan, rfl, rfl⟩
        | ok report =>
          refine .inr ⟨base, labels, report,
            ⟨chooseBase_eq_ok_iff.mp hbase, hlabels, input, hinput, hscan⟩, ?_⟩
          dsimp only
          rcases (Listing.ofReport archive outdir labels report).publish s.syncs d with
            ⟨e | u, d'⟩
          · exact ⟨rfl, rfl⟩
          · exact ⟨rfl, rfl⟩

variable {expand s o archive d}

theorem Surveyed.not_obstacle {base : UInt32} {labels : Option Labels} {report : Report}
    (h : Surveyed expand s o archive d base labels report) (e : UnpackError) :
    ¬ Obstacle expand s o archive d e := by
  obtain ⟨hbase, hlabels, input, hinput, hreport⟩ := h
  rw [← chooseBase_eq_ok_iff] at hbase
  intro hobstacle
  cases hobstacle with
  | base h => cases hbase.symm.trans h
  | labels h => cases hlabels.symm.trans h
  | input h => cases hinput.symm.trans h
  | scan hbase' hinput' h =>
    obtain rfl := Except.ok.inj (hbase.symm.trans hbase')
    obtain rfl := Except.ok.inj (hinput.symm.trans hinput')
    cases hreport.symm.trans h

end Survey

/-- Nothing has changed but what is at the listing and at its temporary file, and that directories
on the way to them are new. -/
def Confined (outdir : String) (d d' : Disk) : Prop :=
  ∀ l, l ≠ place outdir ++ [listingName] → l ≠ place outdir ++ ["." ++ listingName ++ ".tmp"] →
    d'.get? l = d.get? l ∨
      l ∈ Disk.steps outdir ∧ d.get? l = none ∧ d'.get? l = some .dir

/-- The listing lies in its directory, and its temporary file is gone. -/
structure Deposited (outdir : String) (data : Bytes) (d' : Disk) : Prop where
  directory : d'.node? outdir = some .dir
  listing : d'.get? (place outdir ++ [listingName]) = some (.file data)
  content : d'.content (Path.inside outdir listingName) = .ok data
  temp : d'.get? (place outdir ++ ["." ++ listingName ++ ".tmp"]) = none

/-- No directory is in the way of the listing or of its temporary file. -/
def Unblocked (outdir : String) (d : Disk) : Prop :=
  d.get? (place outdir ++ [listingName]) ≠ some .dir ∧
    d.get? (place outdir ++ ["." ++ listingName ++ ".tmp"]) ≠ some .dir

theorem isName_listingName : Path.IsName listingName.toList :=
  ⟨by decide, by decide, by decide, by decide⟩

theorem confined_of_kept {outdir : String} {d d₁ d' : Disk}
    (hgrown : Disk.Grown (Disk.steps outdir) d d₁) (hd : outdir ≠ "")
    (hkept : Disk.KeptBut
      [Path.inside outdir listingName, Path.tempOf (Path.inside outdir listingName)] d₁ d') :
    Confined outdir d d' := by
  intro l hl hl'
  rw [← Disk.place_inside hd isName_listingName] at hl
  rw [← Disk.place_tempOf_inside hd isName_listingName] at hl'
  have hsame : d'.get? l = d₁.get? l := hkept.locations l (by simp [hl, hl'])
  rw [hsame]
  exact hgrown l

theorem deposited_of_replaced {outdir : String} {data : Bytes} {d₁ d' : Disk}
    (hnode : d₁.node? outdir = some .dir)
    (h : Replaced (Path.inside outdir listingName) data d₁ d') : Deposited outdir data d' := by
  have hd : outdir ≠ "" := (Disk.node?_eq_some_iff.mp hnode).1.1
  have hpath := Disk.place_inside hd isName_listingName
  have htemp := Disk.place_tempOf_inside hd isName_listingName
  refine ⟨?_, ?_, h.content, ?_⟩
  · rw [← hnode]
    apply h.kept.nodes
    simp [hpath, htemp]
  · rw [← hpath]
    exact (Disk.node?_eq_some_iff.mp h.node).2.1
  · rw [← htemp]
    exact h.temp

theorem publishBytes_listing_eq_ok_iff {outdir : String} {d₁ : Disk}
    (hnode : d₁.node? outdir = some .dir) (sync : Bool) (data : Bytes) :
    (publishBytes (Path.inside outdir listingName) sync data d₁).1 = .ok () ↔
      Unblocked outdir d₁ := by
  have hiff := (publishBytes_published (Path.inside outdir listingName) sync data d₁).eq_ok_iff
  rw [exists_new_iff, Disk.accepts_tempOf_inside hnode isName_listingName,
    Disk.accepts_inside hnode isName_listingName, true_and] at hiff
  rw [Unblocked, and_comm, ← hiff]
  exact ⟨fun h => ⟨(), h⟩, fun ⟨_, h⟩ => h⟩

theorem Listing.publish_spec (l : Listing) (sync : Bool) (d : Disk) :
    Confined l.outdir d (l.publish sync d).2 ∧
      ((l.publish sync d).1 = .ok () ↔
        ∃ d₁, d.makeDirs l.outdir.toList = .ok d₁ ∧ Unblocked l.outdir d₁) ∧
      ((l.publish sync d).1 = .ok () → Deposited l.outdir l.document (l.publish sync d).2) := by
  have hmade := Disk.makeDirs_made d l.outdir.toList
  rw [String.ofList_toList] at hmade
  unfold Listing.publish
  cases hdirs : d.makeDirs l.outdir.toList with
  | error e =>
    rw [hdirs] at hmade
    refine ⟨fun m _ _ => hmade.grown m, ?_, fun h => by cases h⟩
    simp
  | ok d₁ =>
    rw [hdirs] at hmade
    have hnode := hmade.node d₁ rfl
    have hd : l.outdir ≠ "" := (Disk.node?_eq_some_iff.mp hnode).1.1
    have hpub := publishBytes_published (Path.inside l.outdir listingName) sync l.document d₁
    have hiff := publishBytes_listing_eq_ok_iff hnode sync l.document
    dsimp only
    rcases hp : publishBytes (Path.inside l.outdir listingName) sync l.document d₁ with
      ⟨e | u, d'⟩
    · rw [hp] at hpub hiff
      refine ⟨?_, ?_, fun h => by cases h⟩
      · exact confined_of_kept hmade.grown hd (hpub.of_error.1.mono (by simp))
      · simpa using hiff
    · rw [hp] at hpub hiff
      have hreplaced := hpub.of_ok
      refine ⟨confined_of_kept hmade.grown hd hreplaced.kept, ?_, ?_⟩
      · simpa using hiff
      · intro _
        exact deposited_of_replaced hnode hreplaced

theorem map_eq_ok_iff {ε α β : Type} {f : α → β} {r : Except ε α} {b : β} :
    r.map f = .ok b ↔ ∃ a, r = .ok a ∧ f a = b := by
  cases r <;> simp [Except.map]

theorem base_of_scan {l : Layout} {source : Source} {base : UInt32} {report : Report}
    (h : (scan l source base).result = .ok report) : report.base = base := by
  rcases scan_cases l source with ⟨e, he⟩ | ⟨records, hr⟩
  · cases (he base).symm.trans h
  · rw [← Except.ok.inj ((hr base).symm.trans h)]
    rfl

/-- Nothing is written before the base is chosen, the labels are loaded and the archive is opened
and scanned: if one of these fails, so does unpacking, and the disk is what it was. Unpacking that
succeeds lists what the scan has found, record by record, and leaves nothing but the listing and the
directories on the way to it. It does succeed unless a directory cannot be made or one is in the
way. -/
theorem unpack_writes_after_scan (expand : Unpacker) (s : Settings) (o : UnpackOptions)
    (archive outdir : String) (d : Disk) :
    ((∃ e, Obstacle expand s o archive d e) →
        ∃ e, Obstacle expand s o archive d e ∧
          (unpack expand s o archive outdir d).result = .error e ∧
          (unpack expand s o archive outdir d).disk = d) ∧
      (∀ listing, (unpack expand s o archive outdir d).result = .ok listing →
        (∃ base labels report, Surveyed expand s o archive d base labels report ∧
          listing = .ofReport archive outdir labels report ∧ listing.base = base ∧
          listing.games.map (·.candidate) = report.games ∧ listing.tempos = report.tempos) ∧
        Deposited outdir listing.document (unpack expand s o archive outdir d).disk) ∧
      Confined outdir d (unpack expand s o archive outdir d).disk ∧
      ((∃ listing, (unpack expand s o archive outdir d).result = .ok listing) ↔
        (¬ ∃ e, Obstacle expand s o archive d e) ∧
          ∃ d₁, d.makeDirs outdir.toList = .ok d₁ ∧ Unblocked outdir d₁) := by
  rcases unpack_cases expand s o archive d outdir with
    ⟨e, hobstacle, hresult, hdisk⟩ | ⟨base, labels, report, hsurvey, hresult, hdisk⟩
  · rw [hresult, hdisk]
    refine ⟨fun _ => ⟨e, hobstacle, rfl, rfl⟩, ?_, fun l _ _ => .inl rfl, ?_⟩
    · intro listing h
      cases h
    · constructor
      · rintro ⟨listing, h⟩
        cases h
      · rintro ⟨hno, -⟩
        exact absurd ⟨e, hobstacle⟩ hno
  · -- The archive has been read, so only publishing the listing can still fail.
    obtain ⟨hconfined, hiff, hdeposited⟩ :=
      (Listing.ofReport archive outdir labels report).publish_spec s.syncs d
    have hclear : ¬ ∃ e, Obstacle expand s o archive d e := fun ⟨e, he⟩ => hsurvey.not_obstacle e he
    rw [hresult, hdisk]
    refine ⟨fun h => absurd h hclear, ?_, hconfined, ?_⟩
    · intro listing hok
      obtain ⟨u, hu, rfl⟩ := map_eq_ok_iff.mp hok
      obtain ⟨input, -, hscan⟩ := hsurvey.scanned
      refine ⟨⟨base, labels, report, hsurvey, rfl, base_of_scan hscan, ?_, rfl⟩, hdeposited hu⟩
      simp [Listing.ofReport, Candidate.named, Function.comp_def]
    · rw [and_iff_right hclear]
      refine Iff.trans ?_ hiff
      constructor
      · rintro ⟨listing, hok⟩
        obtain ⟨u, hu, -⟩ := map_eq_ok_iff.mp hok
        exact hu
      · intro hu
        exact ⟨_, map_eq_ok_iff.mpr ⟨(), hu, rfl⟩⟩

def shelf (data : Bytes) : Disk := ⟨[(["a"], .file data)]⟩

theorem makeDirs_shelf (data : Bytes) :
    (shelf data).makeDirs "x/y".toList =
      .ok ⟨[(["x", "y"], .dir), (["x"], .dir), (["a"], .file data)]⟩ := by
  have hx : (shelf data).makeDirs (Disk.parent "x/y".toList) =
      .ok ⟨[(["x"], .dir), (["a"], .file data)]⟩ := by
    rw [Disk.makeDirs]
    rfl
  rw [Disk.makeDirs]
  simp only [hx]
  rfl

def zeros : Bytes := List.replicate 13720 0

theorem span_le_length_zeros : Layout.standard.span ≤ zeros.length := by
  rw [zeros, List.length_replicate]
  decide

def unpackZeros (archive : String) : Unpacking :=
  unpack (fun _ data => ⟨data, none⟩) {} { base := some 0 } archive "x/y" (shelf zeros)

theorem unpack_writes_after_scan_zeros :
    (∃ listing, (unpackZeros "a").result = .ok listing ∧
        Deposited "x/y" listing.document (unpackZeros "a").disk ∧
        (unpackZeros "a").disk.get? ["a"] = some (.file zeros)) ∧
      (unpackZeros "b").disk = shelf zeros := by
  obtain ⟨r, -, hscan⟩ := scan_of_le (l := .standard) (s := ⟨zeros, none⟩) rfl span_le_length_zeros
  constructor
  · obtain ⟨-, hdone, hconfined, hiff⟩ := unpack_writes_after_scan (fun _ data => ⟨data, none⟩) {}
      { base := some 0 } "a" "x/y" (shelf zeros)
    have hsurvey : Surveyed (fun _ data => ⟨data, none⟩) {} { base := some 0 } "a" (shelf zeros) 0
        none (r.report 0) :=
      ⟨.given rfl, rfl, _, openInput_eq_ok_iff.mpr ⟨zeros, rfl, rfl⟩, hscan 0⟩
    obtain ⟨listing, hlisting⟩ := hiff.mpr
      ⟨fun ⟨e, he⟩ => hsurvey.not_obstacle e he, _, makeDirs_shelf zeros, by decide, by decide⟩
    refine ⟨listing, hlisting, (hdone listing hlisting).2, ?_⟩
    rcases hconfined ["a"] (by decide) (by decide) with hsame | ⟨-, hnone, -⟩
    · exact hsame
    · cases hnone
  · obtain ⟨hfailed, -⟩ := unpack_writes_after_scan (fun _ data => ⟨data, none⟩) {}
      { base := some 0 } "b" "x/y" (shelf zeros)
    obtain ⟨e, -, -, hdisk⟩ := hfailed ⟨_, .input (e := .opening "b" (.opening "b" .notFound)) rfl⟩
    exact hdisk

end FlowPack.Archive
