import FlowPack.Disk.StagedFile
import FlowPack.Proofs.Disks

namespace FlowPack.Staging

open Disk (place)

inductive Call where
  | write (data : Bytes)
  | sync
  | close
  | finalize
  | cleanup
  deriving DecidableEq, Repr

structure Event where
  call : Call
  outcome : Except StageError Unit

structure Session where
  file : StagedFile
  disk : Disk

namespace Session

def call (s : Session) : Call → Except StageError Unit × Session
  | .write data =>
    match s.file.write data s.disk with
    | .ok (f, d) => (.ok (), ⟨f, d⟩)
    | .error e => (.error e, s)
  | .sync => (s.file.sync, s)
  | .close => (.ok (), ⟨s.file.close, s.disk⟩)
  | .finalize =>
    match s.file.finalize s.disk with
    | (f, .ok d) => (.ok (), ⟨f, d⟩)
    | (f, .error e) => (.error e, ⟨f, s.disk⟩)
  | .cleanup => (.ok (), ⟨(s.file.cleanup s.disk).1, (s.file.cleanup s.disk).2⟩)

def run (s : Session) : List Call → List Event × Session
  | [] => ([], s)
  | c :: rest =>
    let (events, t) := (s.call c).2.run rest
    (⟨c, (s.call c).1⟩ :: events, t)

end Session

def Call.closes : Call → Bool
  | .write _ | .sync => false
  | .close | .finalize | .cleanup => true

namespace Event

def written : Event → Bytes
  | ⟨.write data, .ok ()⟩ => data
  | _ => []

def publishes : Event → Bool
  | ⟨.finalize, .ok ()⟩ => true
  | _ => false

def clears : Event → Bool
  | ⟨.cleanup, _⟩ => true
  | e => e.publishes

theorem clears_of_publishes {e : Event} (h : e.publishes = true) : e.clears = true := by
  obtain ⟨c, o⟩ := e
  cases c <;> simp_all [clears, publishes]

theorem closes_of_clears {e : Event} (h : e.clears = true) : e.call.closes = true := by
  obtain ⟨c, o⟩ := e
  cases c <;> simp_all [clears, publishes, Call.closes]

end Event

def written (events : List Event) : Bytes := events.flatMap Event.written

@[simp]
theorem written_concat (events : List Event) (e : Event) :
    written (events ++ [e]) = written events ++ e.written := by
  simp [written]

/-- The temporary file of a path can be made on a disk. -/
structure Ready (path : String) (d : Disk) : Prop where
  reaches : d.Reaches (Path.tempOf path)
  noDir : d.get? (place (Path.tempOf path)) ≠ some .dir
  named : (Disk.namesOf (Path.tempOf path)).2 = false

/-- What a session has come to if it started from the disk `d`. -/
structure Course (path : String) (d : Disk) (events : List Event) (s : Session) : Prop where
  target : s.file.path = path
  location : s.file.location = place (Path.tempOf path)
  count : s.file.written = (written events).length
  isOpen : s.file.isOpen = !events.any (·.call.closes)
  dirs : Disk.SameDirs d s.disk
  others : ∀ l, l ≠ place path → l ≠ place (Path.tempOf path) → s.disk.get? l = d.get? l
  temp : s.disk.get? (place (Path.tempOf path)) =
    if events.any Event.clears then none else some (.file (written events))
  final : s.disk.get? (place path) =
    if events.any Event.publishes then some (.file (written events)) else d.get? (place path)
  once : events.countP Event.publishes ≤ 1
  accepts : events.any Event.publishes = true → d.Accepts path

theorem new_eq_ok {path : String} {d d₀ : Disk} {f : StagedFile}
    (h : StagedFile.new path d = .ok (f, d₀)) : Ready path d ∧ Course path d [] ⟨f, d₀⟩ := by
  unfold StagedFile.new at h
  split at h
  · cases h
  next l d₁ hc =>
  obtain ⟨rfl, rfl⟩ := Prod.mk.inj (Except.ok.inj h)
  obtain ⟨hl, hreach, hdir, hnamed, hd⟩ := Disk.create_eq_ok hc
  obtain rfl := hl.symm
  obtain rfl := hd.symm
  refine ⟨⟨hreach, hdir, hnamed⟩, ?_⟩
  exact
    { target := rfl
      location := rfl
      count := rfl
      isOpen := rfl
      dirs := Disk.sameDirs_set hdir []
      others := fun l _ hl => Disk.get?_set_of_ne hl
      temp := Disk.get?_set_self hdir
      final := Disk.get?_set_of_ne (Disk.place_tempOf_ne path).symm
      once := Nat.zero_le 1
      accepts := fun hp => by cases hp }

namespace Course

variable {path : String} {d : Disk} {events : List Event} {s : Session}

theorem cleared_of_published (hp : events.any Event.publishes = true) :
    events.any Event.clears = true := by
  obtain ⟨e, he, hpe⟩ := List.any_eq_true.mp hp
  exact List.any_eq_true.mpr ⟨e, he, Event.clears_of_publishes hpe⟩

theorem closed_of_cleared (hc : events.any Event.clears = true) :
    events.any (·.call.closes) = true := by
  obtain ⟨e, he, hce⟩ := List.any_eq_true.mp hc
  exact List.any_eq_true.mpr ⟨e, he, Event.closes_of_clears hce⟩

theorem not_cleared_of_not_closed (hc : events.any (·.call.closes) = false) :
    events.any Event.clears = false := by
  rw [← Bool.not_eq_true] at hc ⊢
  exact mt closed_of_cleared hc

theorem not_published_of_not_cleared (hc : events.any Event.clears = false) :
    events.any Event.publishes = false := by
  rw [← Bool.not_eq_true] at hc ⊢
  exact mt cleared_of_published hc

theorem keep (h : Course path d events s) {e : Event} {f : StagedFile} (hw : e.written = [])
    (hc : e.clears = false)
    (hf : f = { s.file with isOpen := s.file.isOpen && !e.call.closes }) :
    Course path d (events ++ [e]) ⟨f, s.disk⟩ := by
  subst hf
  have hp : e.publishes = false := by
    rw [← Bool.not_eq_true] at hc ⊢
    exact mt Event.clears_of_publishes hc
  have hwritten : written (events ++ [e]) = written events := by
    rw [written_concat, hw, List.append_nil]
  have hclears : (events ++ [e]).any Event.clears = events.any Event.clears := by simp [hc]
  have hpublishes : (events ++ [e]).any Event.publishes = events.any Event.publishes := by
    simp [hp]
  exact
    { target := h.target
      location := h.location
      count := by rw [hwritten]; exact h.count
      isOpen := by simp [h.isOpen]
      dirs := h.dirs
      others := h.others
      temp := by rw [hwritten, hclears]; exact h.temp
      final := by rw [hwritten, hpublishes]; exact h.final
      once := by simpa [hp] using h.once
      accepts := by rw [hpublishes]; exact h.accepts }

theorem write (h : Course path d events s) (data : Bytes) :
    Course path d (events ++ [⟨.write data, (s.call (.write data)).1⟩])
      (s.call (.write data)).2 := by
  by_cases ho : s.file.isOpen = true
  · have hclosed : events.any (·.call.closes) = false := by
      rw [← Bool.not_eq_true']
      exact h.isOpen.symm.trans ho
    have hcleared := not_cleared_of_not_closed hclosed
    have hpublished := not_published_of_not_cleared hcleared
    -- An open file is still there, with all that was written.
    have hat : s.disk.get? (place (Path.tempOf path)) = some (.file (written events)) := by
      rw [h.temp, hcleared]
      rfl
    have hdir : s.disk.get? (place (Path.tempOf path)) ≠ some .dir := by simp [hat]
    have hcall : s.call (.write data) =
        (.ok (), ⟨{ s.file with written := s.file.written + data.length },
          s.disk.set (place (Path.tempOf path)) (.file (written events ++ data))⟩) := by
      simp only [Session.call, StagedFile.write, ho, if_true, h.location, Disk.append, hat]
    have hwritten : written (events ++ [⟨.write data, .ok ()⟩]) = written events ++ data := by
      rw [written_concat]
      rfl
    rw [hcall]
    exact
      { target := h.target
        location := h.location
        count := by rw [hwritten, List.length_append, ← h.count]
        isOpen := by simp [h.isOpen, Call.closes]
        dirs := h.dirs.trans (Disk.sameDirs_set hdir _)
        others := fun l hl hl' => (Disk.get?_set_of_ne hl').trans (h.others l hl hl')
        temp := by simp [hwritten, hcleared, Event.clears, Event.publishes, Disk.get?_set_self hdir]
        final := by
          rw [Disk.get?_set_of_ne (Disk.place_tempOf_ne path).symm, h.final]
          simp [hpublished, Event.publishes]
        once := by simpa [Event.publishes] using h.once
        accepts := by simpa [Event.publishes] using h.accepts }
  · have hcall : s.call (.write data) = (.error .closed, s) := by
      simp [Session.call, StagedFile.write, ho]
    rw [hcall]
    exact h.keep rfl rfl (by simp [Call.closes])

theorem find_temp (h : Course path d events s) (hr : Ready path d)
    (hc : events.any Event.clears = false) :
    s.disk.find (Path.tempOf path) =
      .ok (place (Path.tempOf path), .file (written events)) := by
  refine Disk.find_eq_ok_iff.mpr ⟨rfl, hr.reaches.of_sameDirs h.dirs, ?_, ?_⟩
  · rw [h.temp, hc]
    rfl
  · rw [hr.named]
    nofun

theorem temp_ne_dir (h : Course path d events s) :
    s.disk.get? (place (Path.tempOf path)) ≠ some .dir := by
  rw [h.temp]
  split <;> nofun

theorem call_finalize (h : Course path d events s) :
    s.call .finalize = match s.disk.rename (Path.tempOf path) path with
      | .ok d' => (.ok (), ⟨s.file.close, d'⟩)
      | .error e => (.error (.rename e), ⟨s.file.close, s.disk⟩) := by
  rw [Session.call, StagedFile.finalize, StagedFile.temp, h.target]
  cases s.disk.rename (Path.tempOf path) path <;> rfl

theorem rename_eq_ok_iff (h : Course path d events s) (hr : Ready path d) {d' : Disk} :
    s.disk.rename (Path.tempOf path) path = .ok d' ↔
      events.any Event.clears = false ∧ d.Accepts path ∧
        d' = (s.disk.erase (place (Path.tempOf path))).set (place path)
          (.file (written events)) := by
  rw [Disk.rename_eq_ok_iff]
  constructor
  · rintro ⟨n, hf, hacc, rfl⟩
    have hat := (Disk.find_eq_ok_iff.mp hf).2.2.1
    rw [h.temp] at hat
    split at hat
    · cases hat
    · next hc =>
      obtain rfl := Option.some.inj hat
      exact ⟨Bool.not_eq_true _ ▸ hc, hacc.of_sameDirs h.dirs.symm, rfl⟩
  · rintro ⟨hc, hacc, rfl⟩
    exact ⟨_, h.find_temp hr hc, hacc.of_sameDirs h.dirs, rfl⟩

theorem finalize (h : Course path d events s) (hr : Ready path d) :
    Course path d (events ++ [⟨.finalize, (s.call .finalize).1⟩]) (s.call .finalize).2 := by
  rw [h.call_finalize]
  cases hren : s.disk.rename (Path.tempOf path) path with
  | error e => exact h.keep rfl rfl (by simp [StagedFile.close, Call.closes])
  | ok d' =>
    obtain ⟨hc, hacc, rfl⟩ := (h.rename_eq_ok_iff hr).mp hren
    have hpublished := not_published_of_not_cleared hc
    have herased : (s.disk.erase (place (Path.tempOf path))).get? (place path) ≠ some .dir := by
      rw [Disk.get?_erase_of_ne (Disk.place_tempOf_ne path).symm]
      exact (hacc.of_sameDirs h.dirs).noDir
    have hwritten : written (events ++ [⟨.finalize, .ok ()⟩]) = written events := by
      rw [written_concat]
      exact List.append_nil _
    exact
      { target := h.target
        location := h.location
        count := by rw [hwritten]; exact h.count
        isOpen := by simp [StagedFile.close, Call.closes]
        dirs := (h.dirs.trans (Disk.sameDirs_erase h.temp_ne_dir)).trans
          (Disk.sameDirs_set herased _)
        others := fun l hl hl' => (Disk.get?_set_of_ne hl).trans
          ((Disk.get?_erase_of_ne hl').trans (h.others l hl hl'))
        temp := by
          rw [Disk.get?_set_of_ne (Disk.place_tempOf_ne path), Disk.get?_erase_self h.temp_ne_dir]
          simp [Event.clears, Event.publishes]
        final := by simp [Disk.get?_set_self herased, hwritten, Event.publishes]
        once := by
          have hnone : events.countP Event.publishes = 0 := by
            simpa [List.countP_eq_zero] using hpublished
          simp [List.countP_append, hnone, Event.publishes]
        accepts := fun _ => hacc }

theorem cleanup (h : Course path d events s) (hr : Ready path d) :
    Course path d (events ++ [⟨.cleanup, (s.call .cleanup).1⟩]) (s.call .cleanup).2 := by
  have hcall : s.call .cleanup = (.ok (), ⟨s.file.close, s.disk.remove (Path.tempOf path)⟩) := by
    rw [Session.call, StagedFile.cleanup, StagedFile.temp, h.target]
  have hremove := Disk.remove_eq (hr.reaches.of_sameDirs h.dirs) hr.named h.temp_ne_dir
  generalize s.disk.remove (Path.tempOf path) = d' at hcall hremove
  have hwritten : written (events ++ [⟨.cleanup, .ok ()⟩]) = written events := by
    rw [written_concat]
    exact List.append_nil _
  have hpublishes : (events ++ [Event.mk .cleanup (.ok ())]).any Event.publishes =
      events.any Event.publishes := by
    simp [Event.publishes]
  have hclears : (events ++ [Event.mk .cleanup (.ok ())]).any Event.clears = true := by
    simp [Event.clears]
  -- Whether or not the file is still there, the other locations stay as they are.
  have hother : ∀ l, l ≠ place (Path.tempOf path) → d'.get? l = s.disk.get? l := by
    intro l hl
    rw [hremove]
    split
    · rfl
    · exact Disk.get?_erase_of_ne hl
  rw [hcall]
  exact
    { target := h.target
      location := h.location
      count := by rw [hwritten]; exact h.count
      isOpen := by simp [StagedFile.close, Call.closes]
      dirs := by
        rw [hremove]
        split
        · exact h.dirs
        · exact h.dirs.trans (Disk.sameDirs_erase h.temp_ne_dir)
      others := fun l hl hl' => (hother l hl').trans (h.others l hl hl')
      temp := by
        rw [hclears, hremove]
        split
        · next hnone => exact hnone
        · exact Disk.get?_erase_self h.temp_ne_dir
      final := by
        rw [hwritten, hpublishes, hother _ (Disk.place_tempOf_ne path).symm]
        exact h.final
      once := by simpa [Event.publishes] using h.once
      accepts := by rw [hpublishes]; exact h.accepts }

theorem call (h : Course path d events s) (hr : Ready path d) (c : Call) :
    Course path d (events ++ [⟨c, (s.call c).1⟩]) (s.call c).2 := by
  cases c with
  | write data => exact h.write data
  | sync => exact h.keep rfl rfl (by simp [Call.closes])
  | close => exact h.keep rfl rfl (by simp [StagedFile.close, Call.closes])
  | finalize => exact h.finalize hr
  | cleanup => exact h.cleanup hr

theorem run (h : Course path d events s) (hr : Ready path d) (calls : List Call) :
    Course path d (events ++ (s.run calls).1) (s.run calls).2 := by
  induction calls generalizing events s with
  | nil => simpa [Session.run] using h
  | cons c calls ih =>
    have hrest := ih (h.call hr c)
    rwa [List.append_assoc, List.singleton_append] at hrest

theorem node?_path (h : Course path d events s) :
    s.disk.node? path =
      if events.any Event.publishes then some (.file (written events)) else d.node? path := by
  by_cases hp : events.any Event.publishes = true
  · have hacc := (h.accepts hp).of_sameDirs h.dirs
    rw [if_pos hp]
    refine Disk.node?_eq_some_iff.mpr ⟨hacc.reaches, ?_, ?_⟩
    · rw [h.final, if_pos hp]
    · rw [hacc.named]
      nofun
  · rw [if_neg hp]
    apply Disk.node?_congr h.dirs
    rw [h.final, if_neg hp]

theorem kept (h : Course path d events s) :
    Disk.KeptBut [path, Path.tempOf path] d s.disk := by
  apply h.dirs.keptBut
  intro l hl
  exact h.others l (hl _ (by simp)) (hl _ (by simp))

end Course

theorem call_of_closed {s : Session} (h : s.file.isOpen = false) (c : Call) :
    Event.written ⟨c, (s.call c).1⟩ = [] ∧ (s.call c).2.file.isOpen = false := by
  cases c with
  | write data => simp [Session.call, StagedFile.write, h, Event.written]
  | sync => exact ⟨rfl, h⟩
  | close => exact ⟨rfl, rfl⟩
  | finalize =>
    refine ⟨rfl, ?_⟩
    rw [Session.call, StagedFile.finalize]
    cases s.disk.rename s.file.temp s.file.path <;> rfl
  | cleanup => exact ⟨rfl, rfl⟩

theorem written_run_of_closed {s : Session} (h : s.file.isOpen = false) (calls : List Call) :
    written (s.run calls).1 = [] := by
  induction calls generalizing s with
  | nil => rfl
  | cons c calls ih =>
    obtain ⟨hw, ho⟩ := call_of_closed h c
    have hrest := ih ho
    simp only [Session.run, written, List.flatMap_cons, hw, List.nil_append]
    exact hrest

theorem map_call_run (s : Session) (calls : List Call) :
    (s.run calls).1.map (·.call) = calls := by
  induction calls generalizing s with
  | nil => rfl
  | cons c calls ih => exact congrArg _ (ih _)

namespace Course

variable {path : String} {d : Disk} {events : List Event} {s : Session}

theorem node?_run (h : Course path d events s) (hr : Ready path d)
    (hp : events.any Event.publishes = true) (calls : List Call) :
    (s.run calls).2.disk.node? path = s.disk.node? path := by
  have hclosed : s.file.isOpen = false := by
    rw [h.isOpen, closed_of_cleared (cleared_of_published hp)]
    rfl
  have hwritten : written (events ++ (s.run calls).1) = written events := by
    rw [written, List.flatMap_append]
    exact (congrArg _ (written_run_of_closed hclosed calls)).trans (List.append_nil _)
  rw [(h.run hr calls).node?_path, h.node?_path, hwritten, List.any_append, hp]
  rfl

theorem call_of_any_closes (h : Course path d events s)
    (hc : events.any (·.call.closes) = true) :
    (∀ data, s.call (.write data) = (.error .closed, s)) ∧
      s.call .sync = (.error .closed, s) := by
  have hclosed : s.file.isOpen = false := by
    rw [h.isOpen, hc]
    rfl
  simp [Session.call, StagedFile.write, StagedFile.sync, hclosed]

theorem call_of_not_any_closes (h : Course path d events s)
    (hc : events.any (·.call.closes) = false) :
    (∀ data, (s.call (.write data)).1 = .ok ()) ∧ (s.call .sync).1 = .ok () := by
  have hopen : s.file.isOpen = true := by
    rw [h.isOpen, hc]
    rfl
  simp [Session.call, StagedFile.write, StagedFile.sync, hopen]

theorem call_finalize_eq_ok_iff (h : Course path d events s) (hr : Ready path d) :
    (s.call .finalize).1 = .ok () ↔ events.any Event.clears = false ∧ d.Accepts path := by
  rw [h.call_finalize]
  constructor
  · intro hok
    split at hok
    · next d' hren =>
      obtain ⟨hc, hacc, -⟩ := (h.rename_eq_ok_iff hr).mp hren
      exact ⟨hc, hacc⟩
    · cases hok
  · rintro ⟨hc, hacc⟩
    rw [(h.rename_eq_ok_iff hr).mpr ⟨hc, hacc, rfl⟩]

end Course

/-- What holds of a session after the events, if its file was started on the disk `d`. -/
structure Lifecycle (path : String) (d : Disk) (events : List Event) (s : Session) : Prop where
  unpublished : events.any Event.publishes = false → s.disk.node? path = d.node? path
  published : events.any Event.publishes = true →
    s.disk.node? path = some (.file (written events))
  settled : events.any Event.publishes = true → ∀ calls,
    (s.run calls).2.disk.node? path = s.disk.node? path
  once : events.countP Event.publishes ≤ 1
  closed : events.any (·.call.closes) = true →
    (∀ data, s.call (.write data) = (.error .closed, s)) ∧ s.call .sync = (.error .closed, s)
  opened : events.any (·.call.closes) = false →
    (∀ data, (s.call (.write data)).1 = .ok ()) ∧ (s.call .sync).1 = .ok ()
  finalizes : (s.call .finalize).1 = .ok () ↔
    events.any Event.clears = false ∧ d.Accepts path
  count : s.file.written = (written events).length
  kept : Disk.KeptBut [path, Path.tempOf path] d s.disk

/-- Calls on a staged file in any order and number keep to its life: the path shows what was there
before up to the first finalizing that succeeds, and all that was written ever after. -/
theorem run_keeps_lifecycle {path : String} {d d₀ : Disk} {f : StagedFile}
    (h : StagedFile.new path d = .ok (f, d₀)) (calls : List Call) :
    (Session.run ⟨f, d₀⟩ calls).1.map (·.call) = calls ∧
      Lifecycle path d (Session.run ⟨f, d₀⟩ calls).1 (Session.run ⟨f, d₀⟩ calls).2 := by
  obtain ⟨hr, hstart⟩ := new_eq_ok h
  have hcourse := hstart.run hr calls
  rw [List.nil_append] at hcourse
  have hnode := hcourse.node?_path
  refine ⟨map_call_run _ calls, ?_⟩
  exact
    { unpublished := fun hp => by rw [hnode, hp]; rfl
      published := fun hp => by rw [hnode, hp]; rfl
      settled := hcourse.node?_run hr
      once := hcourse.once
      closed := hcourse.call_of_any_closes
      opened := hcourse.call_of_not_any_closes
      finalizes := hcourse.call_finalize_eq_ok_iff hr
      count := hcourse.count
      kept := hcourse.kept }

def oldFile : Disk := ⟨[(["out"], .file [1])]⟩

def draft : Session where
  file := { path := "out", location := [".out.tmp"] }
  disk := oldFile.set [".out.tmp"] (.file [])

theorem run_keeps_lifecycle_replaced :
    StagedFile.new "out" oldFile = .ok (draft.file, draft.disk) ∧
      (draft.run [.write [2], .sync]).2.disk.node? "out" = some (.file [1]) ∧
      (draft.run [.write [2], .write [3], .finalize, .write [4], .finalize, .cleanup]).2.disk.node?
        "out" = some (.file [2, 3]) := by
  have hnew : StagedFile.new "out" oldFile = .ok (draft.file, draft.disk) := by decide
  have hbefore := (run_keeps_lifecycle hnew [.write [2], .sync]).2.unpublished (by decide)
  have hafter := (run_keeps_lifecycle hnew
    [.write [2], .write [3], .finalize, .write [4], .finalize, .cleanup]).2.published (by decide)
  exact ⟨hnew, hbefore.trans (by decide), hafter.trans (by decide)⟩

end FlowPack.Staging
