import BlockScript.Proofs.Folder
import BlockScript.Proofs.Json.Depth
import BlockScript.Proofs.Json.Outcomes
import BlockScript.Settings

/-!
# Settings that were saved

Settings that are saved can be loaded again, and their pacing is the same.  Their geometry is read
number by number, each from its own shortest decimal by a single scaling, and comes back unchanged
exactly if every one of its numbers does.  Not every number does.

## What is here

* `Geometry.measures` — the numbers of a geometry.
* `Settings.reread?` — what settings are read as when they have been written.
* `Settings.load_saved` — what is loaded of settings that were saved.
* `Settings.width_not_kept` — settings that are loaded and saved, and then loaded otherwise.
-/

set_option autoImplicit false
namespace BlockScript

open Json

/-! ## What is written and read -/

/-- The numbers of a geometry. -/
def Geometry.measures (geometry : Geometry Float) : List Float :=
  [geometry.width, geometry.height, geometry.step, geometry.margin, geometry.actorStart.x,
    geometry.actorStart.y, geometry.targetStart.x, geometry.targetStart.y]

/-- What a point is read as when it has been written. -/
def Point.reread? (point : Point Float) : Option (Point Float) :=
  (Json.reread? point.x).bind fun x => (Json.reread? point.y).bind fun y => some ⟨x, y⟩

/-- What a geometry is read as when it has been written. -/
def Geometry.reread? (geometry : Geometry Float) : Option (Geometry Float) :=
  (Json.reread? geometry.width).bind fun width =>
  (Json.reread? geometry.height).bind fun height =>
  (Json.reread? geometry.step).bind fun step =>
  (Json.reread? geometry.margin).bind fun margin =>
  geometry.actorStart.reread?.bind fun actorStart =>
  geometry.targetStart.reread?.bind fun targetStart =>
  some { width, height, step, margin, actorStart, targetStart }

/-- What settings are read as when they have been written. -/
def Settings.reread? (settings : Settings) : Option Settings :=
  settings.geometry.reread?.bind fun geometry => some { settings with geometry }

theorem Point.judges_toValue (point : Point Float) :
    Judges asRecord.decoder point.toValue point.reread? :=
  judges_record <| (judges_float point.x).andThen rfl rfl fun _ =>
    (judges_float point.y).andThen rfl rfl fun _ => fillsOrBalks_nil rfl

theorem Geometry.judges_toValue (geometry : Geometry Float) :
    Judges asRecord.decoder geometry.toValue geometry.reread? :=
  judges_record <| (judges_float geometry.width).andThen rfl rfl fun _ =>
    (judges_float geometry.height).andThen rfl rfl fun _ =>
    (judges_float geometry.step).andThen rfl rfl fun _ =>
    (judges_float geometry.margin).andThen rfl rfl fun _ =>
    geometry.actorStart.judges_toValue.andThen rfl rfl fun _ =>
    geometry.targetStart.judges_toValue.andThen rfl rfl fun _ => fillsOrBalks_nil rfl

/-- Rests of at most 64 bits. -/
def Pacing.Fits (pacing : Pacing) : Prop :=
  pacing.step ≤ maxSignificand ∧ pacing.celebration ≤ maxSignificand

theorem decodes_nat64 {n : Nat} (h : n ≤ maxSignificand) :
    Decodes Decoder.nat64 (.integer n) n := by
  constructor
  intro limit d text rest htext hends
  have hlow : -9223372036854775808 ≤ (n : Int) := by omega
  have hpick : Value.toNat "u64" 18446744073709551615 (.integer n) = .ok n := by
    rw [maxSignificand] at h
    rw [Value.toNat, if_pos ⟨by omega, by omega⟩, Int.toNat_natCast]
  exact .of_reads (Nat.zero_le limit)
    (reads_scalar htext (scalarAt_integer hlow (Int.ofNat_le.2 h) hends) hpick)

theorem Pacing.decodes_toValue {pacing : Pacing} (h : pacing.Fits) :
    Decodes asRecord.decoder pacing.toValue pacing := by
  have hfills : Fills asRecord.fields asRecord.blank
      [("step_ms", .integer pacing.step), ("celebration_ms", .integer pacing.celebration)]
      { step := some pacing.step, celebration := some pacing.celebration } :=
    .cons _ rfl rfl ((decodes_nat64 h.1).kept _ _ _ _)
      (.cons _ rfl rfl ((decodes_nat64 h.2).kept _ _ _ _) (.nil _))
  exact decodes_record hfills rfl

theorem Settings.judges_toValue {settings : Settings} (h : settings.pacing.Fits) :
    Judges asRecord.decoder settings.toValue settings.reread? := by
  have hpacing : Judges Pacing.asRecord.decoder settings.pacing.toValue (some settings.pacing) :=
    Pacing.decodes_toValue h
  have hfields : FillsOrBalks asRecord asRecord.blank
      [("pacing", settings.pacing.toValue), ("stage", settings.geometry.toValue)]
      ((some settings.pacing).bind fun pacing =>
        settings.geometry.reread?.bind fun geometry => some { pacing, geometry }) :=
    hpacing.andThen rfl rfl fun _ =>
      settings.geometry.judges_toValue.andThen rfl rfl fun _ => fillsOrBalks_nil rfl
  exact judges_record hfields

/-! ## What comes back unchanged -/

theorem Point.reread?_eq_some_iff {point other : Point Float} :
    point.reread? = some other
      ↔ Json.reread? point.x = some other.x ∧ Json.reread? point.y = some other.y := by
  rw [reread?, Option.bind_eq_some_iff]
  simp only [Option.bind_eq_some_iff]
  constructor
  · rintro ⟨x, hx, y, hy, hpoint⟩
    cases hpoint
    exact ⟨hx, hy⟩
  · rintro ⟨hx, hy⟩
    exact ⟨other.x, hx, other.y, hy, rfl⟩

/-- A geometry comes back unchanged exactly if each of its numbers does. -/
theorem Geometry.reread?_eq_some_iff (geometry : Geometry Float) :
    geometry.reread? = some geometry ↔ ∀ x ∈ geometry.measures, Json.reread? x = some x := by
  simp only [measures, List.forall_mem_cons]
  rw [reread?]
  constructor
  · intro h
    simp only [Option.bind_eq_some_iff] at h
    obtain ⟨width, hwidth, height, hheight, step, hstep, margin, hmargin, actorStart, hactor,
      targetStart, htarget, hgeometry⟩ := h
    cases hgeometry
    obtain ⟨hactorX, hactorY⟩ := Point.reread?_eq_some_iff.1 hactor
    obtain ⟨htargetX, htargetY⟩ := Point.reread?_eq_some_iff.1 htarget
    exact ⟨hwidth, hheight, hstep, hmargin, hactorX, hactorY, htargetX, htargetY, nofun⟩
  · rintro ⟨hwidth, hheight, hstep, hmargin, hactorX, hactorY, htargetX, htargetY, -⟩
    have hactor := Point.reread?_eq_some_iff.2 ⟨hactorX, hactorY⟩
    have htarget := Point.reread?_eq_some_iff.2 ⟨htargetX, htargetY⟩
    simp only [hwidth, hheight, hstep, hmargin, hactor, htarget, Option.bind_some]

theorem Settings.reread?_eq_some_iff (settings : Settings) :
    settings.reread? = some settings
      ↔ ∀ x ∈ settings.geometry.measures, Json.reread? x = some x := by
  rw [← Geometry.reread?_eq_some_iff, reread?]
  cases settings.geometry.reread? with
  | none => simp
  | some geometry => 
    obtain ⟨pacing, own⟩ := settings
    simp

/-- The pacing of settings is kept. -/
theorem Settings.pacing_of_reread? {settings again : Settings}
    (h : settings.reread? = some again) : again.pacing = settings.pacing := by
  obtain ⟨geometry, -, hagain⟩ := Option.bind_eq_some_iff.1 h
  rw [← Option.some.inj hagain]

/-! ## What is accepted -/

theorem le_of_nat64 {limit : Nat} {text : List UInt8} {read : Read Nat text}
    (h : Decoder.nat64 limit text = .ok read) : read.value ≤ maxSignificand := by
  obtain ⟨value, hpick⟩ := exists_pick h
  cases value with
  | integer n =>
    rw [Value.toNat] at hpick
    split at hpick
    · next hrange =>
      rw [← Except.ok.inj hpick, maxSignificand]
      omega
    · cases hpick
  | _ => cases hpick

theorem Pacing.fits_standard : standard.Fits := ⟨by decide, by decide⟩

/-- A draft of a pacing that has rests of at most 64 bits, as far as it has any. -/
def Pacing.Draft.Fits (draft : Draft) : Prop :=
  (∀ n, draft.step = some n → n ≤ maxSignificand) ∧
    ∀ n, draft.celebration = some n → n ≤ maxSignificand

theorem getD_le {bound : Nat} {kept : Option Nat} {other : Nat} (hother : other ≤ bound)
    (hkept : ∀ n, kept = some n → n ≤ bound) : kept.getD other ≤ bound := by
  cases kept with
  | none => exact hother
  | some n => exact hkept n rfl

/-- A pacing that was read has rests of at most 64 bits. -/
theorem Pacing.fits_decoder {limit : Nat} {text : List UInt8} {read : Read Pacing text}
    (h : asRecord.decoder limit text = .ok read) : read.value.Fits := by
  have hfields : ∀ inner, limit = inner + 1 → ∀ field ∈ asRecord.fields,
      ∀ (draft : Draft) text (next : Read Draft text), draft.Fits →
      field.read draft inner text = .ok next → next.value.Fits := by
    intro inner _ field hfield draft text next hdraft hnext
    rcases List.mem_cons.1 hfield with rfl | hfield
    · obtain ⟨step, hstep, rfl⟩ := map_eq_ok hnext
      refine ⟨fun n hn => ?_, hdraft.2⟩
      rw [← Option.some.inj hn]
      exact le_of_nat64 hstep
    · rw [List.mem_singleton.1 hfield] at hnext
      obtain ⟨celebration, hcelebration, rfl⟩ := map_eq_ok hnext
      refine ⟨hdraft.1, fun n hn => ?_⟩
      rw [← Option.some.inj hn]
      exact le_of_nat64 hcelebration
  have hblank : asRecord.blank.Fits := by
    constructor
    · intro n hn
      cases hn
    · intro n hn
      cases hn
  obtain ⟨draft, hdraft, hbuild⟩ := draft_recordDecoder hblank hfields h
  rw [← Except.ok.inj hbuild]
  exact ⟨getD_le fits_standard.1 hdraft.1, getD_le fits_standard.2 hdraft.2⟩

/-- Settings that were read have rests of at most 64 bits. -/
theorem Settings.fits_ofJson {text : ByteArray} {settings : Settings}
    (h : ofJson text = .ok settings) : settings.pacing.Fits := by
  obtain ⟨read, hread, rfl⟩ := exists_read_of_decode h
  have hfields : ∀ inner, maxDepth = inner + 1 → ∀ field ∈ asRecord.fields,
      ∀ (draft : Draft) text (next : Read Draft text),
      (∀ pacing, draft.pacing = some pacing → pacing.Fits) →
      field.read draft inner text = .ok next →
      ∀ pacing, next.value.pacing = some pacing → pacing.Fits := by
    intro inner _ field hfield draft text next hdraft hnext
    rcases List.mem_cons.1 hfield with rfl | hfield
    · obtain ⟨pacing, hpacing, rfl⟩ := map_eq_ok hnext
      intro other hother
      rw [← Option.some.inj hother]
      exact Pacing.fits_decoder hpacing
    · rw [List.mem_singleton.1 hfield] at hnext
      obtain ⟨geometry, -, rfl⟩ := map_eq_ok hnext
      exact hdraft
  have hblank : ∀ pacing, asRecord.blank.pacing = some pacing → pacing.Fits := by
    intro pacing hpacing
    cases hpacing
  obtain ⟨draft, hdraft, hbuild⟩ := draft_recordDecoder hblank hfields hread
  rw [← Except.ok.inj hbuild]
  cases hpacing : draft.pacing with
  | none => exact Pacing.fits_standard
  | some pacing => exact hdraft pacing hpacing

/-! ## Saving and loading -/

namespace Settings

theorem depth_toValue (settings : Settings) : settings.toValue.depth ≤ maxDepth := by
  simp only [toValue, Pacing.toValue, Geometry.toValue, Point.toValue, Value.depth,
    Value.depthOfFields]
  decide

theorem ofJson_of_load {folder : Folder} {path : String} {settings : Settings}
    (h : load folder path = .ok settings) :
    ∃ bytes, folder.read path = .ok bytes ∧ ofJson bytes = .ok settings := by
  rw [load, ofFile.eq_def] at h
  split at h
  · cases h
  · next bytes hread =>
    split at h
    · cases h
    · next hjson =>
      obtain rfl := Except.ok.inj h
      exact ⟨bytes, hread, hjson⟩

theorem write_of_save {settings : Settings} {folder saved : Folder} {path : String}
    (h : settings.save folder path = .ok saved) :
    folder.write path settings.toJson.toUTF8 = .ok saved := by
  rw [save] at h
  split at h
  · cases h
  · next hwrite => rw [hwrite, Except.ok.inj h]

/-- **Settings that were saved are loaded as what they are read as.** -/
theorem settles_load {settings : Settings} (hfits : settings.pacing.Fits) {folder saved : Folder}
    {path : String} (hsave : settings.save folder path = .ok saved) :
    Settles (load saved path) settings.reread? := by
  have hdecode := decode_judged (judges_toValue hfits) settings.depth_toValue
  have hjson : Settles (ofJson settings.toJson.toUTF8) settings.reread? := hdecode
  rw [load, Folder.read_of_write (write_of_save hsave)]
  cases hreread : settings.reread? with
  | some again =>
    rw [hreread] at hjson
    have hjson : ofJson settings.toJson.toUTF8 = .ok again := hjson
    exact by simp only [Settles, ofFile, hjson]
  | none =>
    rw [hreread] at hjson
    obtain ⟨error, hjson⟩ := hjson
    exact ⟨.invalid path error, by simp only [ofFile, hjson]⟩

/-- **What is loaded of settings that were loaded and saved.**  They can be saved where they were
loaded.  Wherever they are saved, they are loaded with the same pacing if at all, and they are
loaded unchanged exactly if each number of the geometry is what its own text is read as. -/
theorem load_saved {folder : Folder} {path : String} {settings : Settings}
    (hload : load folder path = .ok settings) :
    (∃ saved, settings.save folder path = .ok saved) ∧
    ∀ (elsewhere saved : Folder) (place : String), settings.save elsewhere place = .ok saved →
      (∀ again, load saved place = .ok again → again.pacing = settings.pacing) ∧
      (load saved place = .ok settings
        ↔ ∀ x ∈ settings.geometry.measures, Json.reread? x = some x) := by
  obtain ⟨bytes, hread, hjson⟩ := ofJson_of_load hload
  refine ⟨?_, ?_⟩
  · obtain ⟨saved, hwrite⟩ := Folder.exists_write hread settings.toJson.toUTF8
    exact ⟨saved, by rw [save, hwrite]⟩
  · intro elsewhere saved place hsave
    have hsettles := settles_load (fits_ofJson hjson) hsave
    rw [← reread?_eq_some_iff]
    cases hreread : settings.reread? with
    | none =>
      rw [hreread] at hsettles
      obtain ⟨error, hfailed⟩ := hsettles
      rw [hfailed]
      simp
    | some again =>
      rw [hreread] at hsettles
      have hagain : load saved place = .ok again := hsettles
      rw [hagain, Except.ok.injEq, Option.some.injEq]
      refine ⟨fun other hother => ?_, Iff.rfl⟩
      rw [← Except.ok.inj hother]
      exact pacing_of_reread? hreread

/-! ## A width -/

/-- The usual settings, but for the width of the stage. -/
def ofWidth (width : Float) : Settings := { geometry := { Geometry.standard with width } }

/-- A document that gives the width of the stage as a whole number, and nothing else. -/
def widthDocument (n : Nat) : Value := .object [("stage", .object [("width", .integer n)])]

/-- A folder with such a document. -/
def widthFolder (n : Nat) : Folder := .single "engine.json" (widthDocument n).pretty

theorem load_widthFolder {n : Nat} (hn : n ≤ maxSignificand) :
    load (widthFolder n) "engine.json" = .ok (ofWidth (Float.ofInt n)) := by
  have hwidth : Decodes Decoder.float (.integer n) (Float.ofInt n) := by
    constructor
    intro limit d text rest htext hends
    have hlow : -9223372036854775808 ≤ (n : Int) := by omega
    exact .of_reads (Nat.zero_le limit)
      (reads_scalar htext (scalarAt_integer hlow (Int.ofNat_le.2 hn) hends) rfl)
  have hgeometry : Decodes Geometry.asRecord.decoder (.object [("width", .integer n)])
      (ofWidth (Float.ofInt n)).geometry :=
    decodes_record (.cons _ rfl rfl (hwidth.kept _ _ _ _) (.nil _)) rfl
  have hsettings : Decodes asRecord.decoder (widthDocument n) (ofWidth (Float.ofInt n)) :=
    decodes_record (.cons _ rfl rfl (hgeometry.kept _ _ _ _) (.nil _)) rfl
  have hdepth : (widthDocument n).depth = 2 := rfl
  have hdecode := decode_pretty hsettings
  rw [hdepth, if_pos (by decide)] at hdecode
  have hjson : ofJson (widthDocument n).pretty.toUTF8 = .ok (ofWidth (Float.ofInt n)) := hdecode
  rw [load, widthFolder, Folder.read_single _ (by decide +kernel) rfl]
  simp only [ofFile, hjson]

/-- A stage that is 800 wide is still so after its settings have been saved. -/
theorem width_kept :
    load (widthFolder 800) "engine.json" = .ok (ofWidth 800) ∧
      ∃ saved, (ofWidth 800).save (widthFolder 800) "engine.json" = .ok saved ∧
        load saved "engine.json" = .ok (ofWidth 800) := by
  have hload := load_widthFolder (n := 800) (by decide)
  have hwidth : Float.ofInt (800 : Nat) = 800 := by decide +kernel
  rw [hwidth] at hload
  obtain ⟨⟨saved, hsave⟩, hkept⟩ := load_saved hload
  exact ⟨hload, saved, hsave, (hkept _ saved "engine.json" hsave).2.2 (by decide +kernel)⟩

/-- **A stage that is 9007199254740892 wide is one wider after its settings have been saved.** -/
theorem width_not_kept :
    load (widthFolder 9007199254740892) "engine.json" = .ok (ofWidth 9007199254740892) ∧
      ∃ saved, (ofWidth 9007199254740892).save (widthFolder 9007199254740892) "engine.json"
          = .ok saved ∧
        load saved "engine.json" = .ok (ofWidth 9007199254740893) ∧
        ofWidth 9007199254740893 ≠ ofWidth 9007199254740892 := by
  have hload := load_widthFolder (n := 9007199254740892) (by decide)
  have hwidth : Float.ofInt (9007199254740892 : Nat) = 9007199254740892 := by decide +kernel
  rw [hwidth] at hload
  obtain ⟨bytes, hread, -⟩ := ofJson_of_load hload
  obtain ⟨saved, hwrite⟩ := Folder.exists_write hread (ofWidth 9007199254740892).toJson.toUTF8
  have hsave : (ofWidth 9007199254740892).save (widthFolder 9007199254740892) "engine.json"
      = .ok saved := by
    rw [save, hwrite]
  have hreread : (ofWidth 9007199254740892).reread? = some (ofWidth 9007199254740893) := by
    decide +kernel
  have hsettles := settles_load Pacing.fits_standard hsave
  rw [hreread] at hsettles
  exact ⟨hload, saved, hsave, hsettles, by decide +kernel⟩

end Settings
end BlockScript
