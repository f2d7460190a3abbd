import FlowPack.Settings.File
import FlowPack.Proofs.Publishing
import FlowPack.Proofs.Settings.Expansion
import FlowPack.Proofs.Settings.Rendering

namespace FlowPack.Settings

open Environment (Inert Sealed inert_of_not_mem)
open Yaml.Printer (Kept dollar_not_mem_margin)

theorem dollar_not_mem_toString (n : Int) : '$' ∉ (toString n).toList := by
  intro h
  rcases Yaml.mem_toString h with hd | hd <;> exact absurd hd (by decide)

theorem inert_render {s : Settings} (h : s.Valid)
    (hnames : ∀ cs : List Char, s.namesFile = cs.map .char → Inert cs) : Inert s.render := by
  have hfree {t : Text} (ht : .char '$' ∉ t) (cs : List Char) (he : t = cs.map .char) :
      Inert cs := by
    subst he
    exact inert_of_not_mem fun hd => ht (List.mem_map_of_mem hd)
  have hsync : .char '$' ∉ Text.ofString s.sync.name := by
    rcases h.sync with hs | hs <;> rw [hs] <;> decide
  have hbase : .char '$' ∉ s.baseOffset := by
    rcases h.baseOffset with hb | hb
    · rw [hb]
      exact List.not_mem_nil
    · exact (Archive.Offset.simple hb).noDollar
  have htexts : ∀ t ∈ s.texts, ∀ cs : List Char, t = cs.map .char → Inert cs := by
    simp only [texts, List.forall_mem_cons, List.not_mem_nil, false_implies, implies_true, and_true]
    exact ⟨hfree (Journal.Level.simple h.level).noDollar,
      hfree (Archive.Variant.simple h.variant).noDollar, hfree hbase, hnames⟩
  have hplain : (∀ key ∈ keys, '$' ∉ key.toList) ∧ ∀ mark ∈ marks, '$' ∉ mark := by decide
  have hp : OfParts Sealed := {
    append := fun hcs hds => hcs.append hds
    margin := fun width => .of_not_mem (dollar_not_mem_margin width)
    number := fun n => .of_not_mem (dollar_not_mem_toString n)
    key := fun key hkey => .of_not_mem (hplain.1 key hkey)
    mark := fun mark hmark => .of_not_mem (hplain.2 mark hmark) }
  exact (hp.render (fun width => Yaml.Printer.sealed_text width (hfree hsync))
    fun t ht width => Yaml.Printer.sealed_text width (htexts t ht)).inert

theorem of_save {s : Settings} {path : String} {d : Disk} (h : (s.save path d).1 = .ok ()) :
    s.Valid ∧ (s.save path d).2.content path = .ok s.document := by
  have hpub := publishBytes_published path s.syncs s.document d
  unfold save at h ⊢
  split at h
  · cases h
  · next hcheck =>
    refine ⟨check_eq_ok_iff.mp hcheck, ?_⟩
    split at h
    · next hp =>
      rw [hp] at hpub
      exact hpub.of_ok.content
    · cases h

theorem Valid.reread {s : Settings} (h : s.Valid) : s.reread.Valid := by
  have hlevel := (Journal.Level.simple h.level).ofBytes_bytes
  have hvariant := (Archive.Variant.simple h.variant).ofBytes_bytes
  have hbase : Text.ofBytes s.baseOffset.bytes = s.baseOffset := by
    rcases h.baseOffset with hb | hb
    · rw [hb]
      exact Text.ofBytes_nil
    · exact (Archive.Offset.simple hb).ofBytes_bytes
  exact
    { version := h.version
      level := by rw [Settings.reread, hlevel]; exact h.level
      tags := h.tags
      sync := h.sync
      variant := by rw [Settings.reread, hvariant]; exact h.variant
      baseOffset := by rw [Settings.reread, hbase]; exact h.baseOffset }

theorem load_of_parse {s s' : Settings} {path : String} {d : Disk} {env : Environment}
    (hsave : (s.save path d).1 = .ok ()) (hparse : parse (env.expand s.document) = .ok s')
    (hs' : s'.Valid) : load env (s.save path d).2 path = .ok s' := by
  rw [load, (of_save hsave).2]
  dsimp only
  rw [ofBytes, hparse]
  dsimp only
  rw [check_eq_ok_iff.mpr hs']

/-- Settings that say the same. A tag list that was taken away says the same as an empty one. -/
structure Agrees (s s' : Settings) : Prop where
  version : s'.version = s.version
  logLevel : s'.logLevel.bytes = s.logLevel.bytes
  pointers : s'.pointers = s.pointers
  strings : s'.strings = s.strings
  sync : s'.sync = s.sync
  variant : s'.variant.bytes = s.variant.bytes
  baseOffset : s'.baseOffset.bytes = s.baseOffset.bytes
  namesFile : s'.namesFile.bytes = s.namesFile.bytes

theorem agrees_reread (s : Settings) : Agrees s s.reread where
  version := rfl
  logLevel := Text.bytes_ofBytes _
  pointers := rfl
  strings := rfl
  sync := rfl
  variant := Text.bytes_ofBytes _
  baseOffset := Text.bytes_ofBytes _
  namesFile := Text.bytes_ofBytes _

/-- Whatever the environment, settings whose names file refers to no variable are loaded as they
were saved. -/
theorem saved_settings_load_back (s : Settings) (path : String) (d : Disk) (env : Environment)
    (hsave : (s.save path d).1 = .ok ()) (hversion : s.version ≤ Yaml.maxInt)
    (hnames : ∀ cs : List Char, s.namesFile = cs.map .char → Inert cs)
    (hkept : ∀ t ∈ s.texts, Kept t) :
    ∃ s', load env (s.save path d).2 path = .ok s' ∧ Agrees s s' := by
  have hs := (of_save hsave).1
  have hexpand : env.expand s.document = s.document :=
    Environment.expand_inert env (inert_render hs hnames)
  have hparse : parse (env.expand s.document) = .ok s.reread := by
    rw [hexpand, parse_document hs hversion hkept]
  exact ⟨s.reread, load_of_parse hsave hparse hs.reread, agrees_reread s⟩

def tricky : Settings := { namesFile := .ofString "- a: \"$ #\n  'b' $\n" }

theorem saved_settings_load_back_tricky :
    (tricky.save "c" ⟨[]⟩).1 = .ok () ∧
      ∃ s', load [([0x58], [0x76])] (tricky.save "c" ⟨[]⟩).2 "c" = .ok s' ∧ Agrees tricky s' := by
  have hsave : (tricky.save "c" ⟨[]⟩).1 = .ok () := by decide +kernel
  refine ⟨hsave, saved_settings_load_back tricky "c" ⟨[]⟩ _ hsave (by decide) (fun cs hcs => ?_)
    (by decide)⟩
  obtain rfl : "- a: \"$ #\n  'b' $\n".toList = cs :=
    List.map_injective_iff.mpr (fun _ _ h => Glyph.char.inj h) hcs
  decide

def referring : Settings := { namesFile := .ofString "$X" }

def replaced : Settings := { namesFile := .ofString "v" }

def broken : Settings := { namesFile := .ofString "\nx" }

def unbroken : Settings := { namesFile := .ofString "x" }

def bindings : Environment := [([0x58], [0x76])]

theorem parse_expand_referring : parse (bindings.expand referring.document) = .ok replaced := by
  have hexpand : bindings.expand referring.document = replaced.document := by decide +kernel
  rw [hexpand, parse, chars?_document]
  decide +kernel

theorem parse_expand_broken : parse (bindings.expand broken.document) = .ok unbroken := by
  have hexpand : bindings.expand broken.document = broken.document := by decide +kernel
  rw [hexpand, parse, chars?_document]
  decide +kernel

/-- Loading replaces a reference in the names file and loses a line break at its start. -/
theorem names_file_changes_on_loading :
    ((referring.save "c" ⟨[]⟩).1 = .ok () ∧
      load bindings (referring.save "c" ⟨[]⟩).2 "c" = .ok replaced ∧
      ¬ Agrees referring replaced) ∧
    ((broken.save "c" ⟨[]⟩).1 = .ok () ∧
      load bindings (broken.save "c" ⟨[]⟩).2 "c" = .ok unbroken ∧ ¬ Agrees broken unbroken) := by
  have hreferring : (referring.save "c" ⟨[]⟩).1 = .ok () := by decide +kernel
  have hreplaced : replaced.Valid := check_eq_ok_iff.mp (by decide +kernel)
  have hbroken : (broken.save "c" ⟨[]⟩).1 = .ok () := by decide +kernel
  have hunbroken : unbroken.Valid := check_eq_ok_iff.mp (by decide +kernel)
  exact ⟨⟨hreferring, load_of_parse hreferring parse_expand_referring hreplaced,
      fun h => absurd h.namesFile (by decide)⟩,
    hbroken, load_of_parse hbroken parse_expand_broken hunbroken,
    fun h => absurd h.namesFile (by decide)⟩

end FlowPack.Settings
