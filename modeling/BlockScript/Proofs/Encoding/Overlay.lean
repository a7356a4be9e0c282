import BlockScript.Proofs.Folder
import BlockScript.Proofs.Json.Members
import BlockScript.Settings

/-!
# Settings given in part

A document of settings may leave out a section, or any setting of a section, and may have members
that mean nothing to the program.  What it gives is laid over the usual settings: each setting that
is given has the value that its text has as a document of its own, and each of the others has its
usual value.

## What is here

* `Pacing.GivenBy`, `Point.TextOf`, `Geometry.GivenBy` — which members give a pacing and a geometry,
  as far as they do, and which texts are those of points.
* `Settings.Overlay` — what a document gives; `Settings.Overlay.settings` lays it over the usual
  settings, and `Settings.Overlay.Document` says which texts give it.
* `Settings.load_overlay` — **what a document gives is loaded, and the rest is as usual**.
-/

set_option autoImplicit false
namespace BlockScript

open Json

/-- A text is read as a value when it is a document of its own. -/
def Json.Alone {α : Type} (decoder : Decoder α) (text : List Char) (value : α) : Prop :=
  decode decoder (bytes text) = .ok value

/-- A text is an object with members that give what is wanted. -/
def Json.ObjectOf {δ : Type} (given : List (String × List Char) → δ → Prop) (text : List Char)
    (draft : δ) : Prop :=
  ∃ members, ObjectText members text ∧ given members draft

/-! ## Pacing -/

namespace Pacing

/-- Some members give the rests of a draft and no others.  Members of other keys may have any
values. -/
structure GivenBy (members : List (String × List Char)) (draft : Draft) : Prop where
  step : Given (Alone Decoder.nat64) "step_ms" members draft.step
  celebration : Given (Alone Decoder.nat64) "celebration_ms" members draft.celebration
  others : Others ["step_ms", "celebration_ms"] members

/-- The places of a draft of a pacing. -/
def places : Places Draft where
  list :=
    [{ key := "step_ms", get := Draft.step, set := fun draft n => { draft with step := some n },
       decoder := .nat64 },
     { key := "celebration_ms", get := Draft.celebration,
       set := fun draft n => { draft with celebration := some n }, decoder := .nat64 }]
  nodup := by decide
  get_set := by simp
  separate := by simp
  ext := by
    rintro ⟨step, celebration⟩ ⟨step', celebration'⟩ h
    simpa using h

theorem kept_asRecord : asRecord.Kept places where
  fields := rfl
  blank := by simp [places, asRecord]

/-- The pacing of a draft; what it lacks is taken from the usual pacing. -/
def Draft.complete (draft : Draft) : Pacing where
  step := draft.step.getD standard.step
  celebration := draft.celebration.getD standard.celebration

/-- A section that gives some rests is read as a pacing with the usual rests otherwise. -/
theorem denotes_section {text : List Char} {draft : Draft} (h : ObjectOf GivenBy text draft) :
    Denotes asRecord.decoder 1 text draft.complete := by
  obtain ⟨members, htext, h⟩ := h
  refine denotes_object kept_asRecord htext ?_ h.others rfl
  have hstep := h.step.imp fun _ _ => denotes_nat64
  have hcelebration := h.celebration.imp fun _ _ => denotes_nat64
  simpa [places] using ⟨hstep, hcelebration⟩

end Pacing

/-! ## Points -/

namespace Point

/-- The texts of a point: an object with both coordinates, or a list of them. -/
inductive TextOf (point : Point Float) : List Char → Prop
  | object {members : List (String × List Char)} {text : List Char}
    (htext : ObjectText members text)
    (hx : Given (Alone Decoder.float) "x" members (some point.x))
    (hy : Given (Alone Decoder.float) "y" members (some point.y))
    (hothers : Others ["x", "y"] members) : TextOf point text
  | list {x y text : List Char} (htext : ItemsText [x, y] text)
    (hx : Alone Decoder.float x point.x) (hy : Alone Decoder.float y point.y) :
    TextOf point ('[' :: (text ++ [']']))

/-- The places of a draft of a point. -/
def places : Places Draft where
  list :=
    [{ key := "x", get := Draft.x, set := fun draft x => { draft with x := some x },
       decoder := .float },
     { key := "y", get := Draft.y, set := fun draft y => { draft with y := some y },
       decoder := .float }]
  nodup := by decide
  get_set := by simp
  separate := by simp
  ext := by
    rintro ⟨x, y⟩ ⟨x', y'⟩ h
    simpa using h

theorem kept_asRecord : asRecord.Kept places where
  fields := rfl
  blank := by simp [places, asRecord]

/-- The text of a point is read as the point. -/
theorem TextOf.denotes {point : Point Float} {text : List Char} (h : TextOf point text) :
    Denotes asRecord.decoder 1 text point := by
  have hbuild : asRecord.build { x := some point.x, y := some point.y } = .ok point := rfl
  cases h with
  | object htext hx hy hothers =>
    refine denotes_object kept_asRecord htext ?_ hothers hbuild
    have hx := hx.imp fun _ _ => denotes_float
    have hy := hy.imp fun _ _ => denotes_float
    simpa [places] using ⟨hx, hy⟩
  | list htext hx hy =>
    refine denotes_list kept_asRecord htext ?_ hbuild
    have hpick : ∀ (value : Value) (x : Float), value.toFloat = .ok x → value.IsNumeric :=
      fun _ _ => isNumeric_of_toFloat
    exact .cons ⟨opensAt_of_decode hpick hx, _, rfl, denotes_float hx⟩
      (.cons ⟨opensAt_of_decode hpick hy, _, rfl, denotes_float hy⟩ .nil)

end Point

/-! ## Geometries -/

namespace Geometry

/-- Some members give the measures of a draft and no others.  Members of other keys may have any
values. -/
structure GivenBy (members : List (String × List Char)) (draft : Draft) : Prop where
  width : Given (Alone Decoder.float) "width" members draft.width
  height : Given (Alone Decoder.float) "height" members draft.height
  step : Given (Alone Decoder.float) "step" members draft.step
  margin : Given (Alone Decoder.float) "margin" members draft.margin
  actorStart : Given (fun text point => Point.TextOf point text) "actor_start" members
    draft.actorStart
  targetStart : Given (fun text point => Point.TextOf point text) "target_start" members
    draft.targetStart
  others : Others ["width", "height", "step", "margin", "actor_start", "target_start"] members

/-- The places of a draft of a geometry. -/
def places : Places Draft where
  list :=
    [{ key := "width", get := Draft.width, set := fun draft x => { draft with width := some x },
       decoder := .float },
     { key := "height", get := Draft.height, set := fun draft x => { draft with height := some x },
       decoder := .float },
     { key := "step", get := Draft.step, set := fun draft x => { draft with step := some x },
       decoder := .float },
     { key := "margin", get := Draft.margin, set := fun draft x => { draft with margin := some x },
       decoder := .float },
     { key := "actor_start", get := Draft.actorStart,
       set := fun draft p => { draft with actorStart := some p },
       decoder := Point.asRecord.decoder },
     { key := "target_start", get := Draft.targetStart,
       set := fun draft p => { draft with targetStart := some p },
       decoder := Point.asRecord.decoder }]
  nodup := by decide
  get_set := by simp
  separate := by simp
  ext := by
    rintro ⟨width, height, step, margin, actorStart, targetStart⟩
      ⟨width', height', step', margin', actorStart', targetStart'⟩ h
    simpa using h

theorem kept_asRecord : asRecord.Kept places where
  fields := rfl
  blank := by simp [places, asRecord]

/-- A section that gives some measures is read as a geometry with the usual measures otherwise. -/
theorem denotes_section {text : List Char} {draft : Draft} (h : ObjectOf GivenBy text draft) :
    Denotes asRecord.decoder 2 text draft.complete := by
  obtain ⟨members, htext, h⟩ := h
  refine denotes_object kept_asRecord htext ?_ h.others rfl
  have hfloat : ∀ (text : List Char) (x : Float), Alone Decoder.float text x →
      Denotes Decoder.float 1 text x := fun _ _ halone => (denotes_float halone).mono (by decide)
  have hpoint : ∀ (text : List Char) (point : Point Float), Point.TextOf point text →
      Denotes Point.asRecord.decoder 1 text point := fun _ _ htext => htext.denotes
  simpa [places] using ⟨h.width.imp hfloat, h.height.imp hfloat, h.step.imp hfloat,
    h.margin.imp hfloat, h.actorStart.imp hpoint, h.targetStart.imp hpoint⟩

end Geometry

/-! ## Settings -/

namespace Settings

/-- What a document gives of settings: the sections that it has, with what is given in each. -/
structure Overlay where
  pacing : Option Pacing.Draft := none
  geometry : Option Geometry.Draft := none

/-- What is given, laid over the usual settings. -/
def Overlay.settings (given : Overlay) : Settings where
  pacing :=
    { step := (given.pacing.bind Pacing.Draft.step).getD 300
      celebration := (given.pacing.bind Pacing.Draft.celebration).getD 1000 }
  geometry :=
    { width := (given.geometry.bind Geometry.Draft.width).getD 480
      height := (given.geometry.bind Geometry.Draft.height).getD 360
      step := (given.geometry.bind Geometry.Draft.step).getD 30
      margin := (given.geometry.bind Geometry.Draft.margin).getD 20
      actorStart := (given.geometry.bind Geometry.Draft.actorStart).getD ⟨25, 50⟩
      targetStart := (given.geometry.bind Geometry.Draft.targetStart).getD ⟨75, 33⟩ }

/-- Some members give the sections of an overlay and no others.  Members of other keys may have any
values. -/
structure GivenBy (members : List (String × List Char)) (given : Overlay) : Prop where
  pacing : Given (ObjectOf Pacing.GivenBy) "pacing" members given.pacing
  geometry : Given (ObjectOf Geometry.GivenBy) "stage" members given.geometry
  others : Others ["pacing", "stage"] members

/-- A text is a document that gives an overlay, and no more that the program knows. -/
inductive Overlay.Document (given : Overlay) : List Char → Prop
  | padded {ahead text behind : List Char} (hahead : IsBlanks ahead)
    (htext : ObjectOf GivenBy text given) (hbehind : IsBlanks behind) :
    Document given (ahead ++ (text ++ behind))

/-- The places of a draft of settings. -/
def places : Places Draft where
  list :=
    [{ key := "pacing", get := Draft.pacing,
       set := fun draft pacing => { draft with pacing := some pacing },
       decoder := Pacing.asRecord.decoder },
     { key := "stage", get := Draft.geometry,
       set := fun draft geometry => { draft with geometry := some geometry },
       decoder := Geometry.asRecord.decoder }]
  nodup := by decide
  get_set := by simp
  separate := by simp
  ext := by
    rintro ⟨pacing, geometry⟩ ⟨pacing', geometry'⟩ h
    simpa using h

theorem kept_asRecord : asRecord.Kept places where
  fields := rfl
  blank := by simp [places, asRecord]

/-- Sections that lack settings, or are lacking, are completed by the usual settings. -/
theorem build_complete (given : Overlay) :
    asRecord.build
        { pacing := given.pacing.map Pacing.Draft.complete
          geometry := given.geometry.map Geometry.Draft.complete }
      = .ok given.settings := by
  obtain ⟨pacing, geometry⟩ := given
  cases pacing with
  | none => cases geometry with
    | none => rfl
    | some geometry => rfl
  | some pacing => cases geometry with
    | none => rfl
    | some geometry => rfl

/-- An object that gives an overlay is read as what is given, laid over the usual settings. -/
theorem denotes_overlay {text : List Char} {given : Overlay} (h : ObjectOf GivenBy text given) :
    Denotes asRecord.decoder 3 text given.settings := by
  obtain ⟨members, htext, h⟩ := h
  refine denotes_object kept_asRecord htext ?_ h.others (build_complete given)
  have hpacing := h.pacing.map Pacing.Draft.complete fun _ _ hsection =>
    (Pacing.denotes_section hsection).mono (show 1 ≤ 2 by decide)
  have hgeometry := h.geometry.map Geometry.Draft.complete fun _ _ => Geometry.denotes_section
  simpa [places] using ⟨hpacing, hgeometry⟩

/-- **What a document gives is loaded, and the rest is as usual.**  This holds of every document
that gives any settings in any order, with or without either section, and with any other members at
each level: loading it succeeds, each setting that is given has the value that its text has as a
document of its own, and each of the others has its usual value. -/
theorem load_overlay {folder : Folder} {path text : String} {given : Overlay}
    (hread : folder.read path = .ok text.toUTF8) (htext : given.Document text.toList) :
    load folder path = .ok given.settings := by
  have hjson : ofJson text.toUTF8 = .ok given.settings := by
    rw [ofJson, toList_toUTF8]
    generalize text.toList = chars at htext
    cases htext with
    | padded hahead hobject hbehind =>
      exact decode_of_denotes (denotes_overlay hobject) (by decide) hahead hbehind
  rw [load, hread]
  simp only [ofFile, hjson]

/-- A document with two measures of the stage, one rest, and a member of an unknown key. -/
def partialText : String :=
  "\x7b\"stage\": \x7b\"target_start\": [7.5e1, 40], \"width\": 7\x7d, \"theme\": [null], " ++
    "\"pacing\": \x7b\"step_ms\": 5\x7d\x7d\n"

/-- What this document gives. -/
def partialOverlay : Overlay where
  pacing := some { step := some 5 }
  geometry := some { width := some 7, targetStart := some ⟨75, 40⟩ }

theorem document_partialText : partialOverlay.Document partialText.toList := by
  have hspace : IsBlanks [' '] := by decide
  have hpoint : Point.TextOf ⟨75, 40⟩ _ :=
    have hx : Alone Decoder.float "7.5e1".toList 75 := rfl
    have hy : Alone Decoder.float "40".toList 40 := rfl
    .list (.cons isBlanks_nil isBlanks_nil (.last hspace isBlanks_nil)) hx hy
  have hstage : ObjectOf Geometry.GivenBy _ { width := some 7, targetStart := some ⟨75, 40⟩ } :=
    ⟨_, .members (.cons (memberText_plain "target_start" (by decide) isBlanks_nil _)
        (.last (memberText_plain "width" (by decide) hspace "7".toList))),
      { width := .cons rfl .nil, height := .nil, step := .nil, margin := .nil, actorStart := .nil,
        targetStart := .cons hpoint .nil
        others := by simp [Others] }⟩
  have htheme : WellFormed .value _ :=
    .list (.lastElement (.padded isBlanks_nil (.word (.head _)) isBlanks_nil))
  have hpacing : ObjectOf Pacing.GivenBy _ { step := some 5 } :=
    ⟨_, .members (.last (memberText_plain "step_ms" (by decide) isBlanks_nil "5".toList)),
      { step := .cons rfl .nil, celebration := .nil, others := by simp [Others] }⟩
  have hgiven : GivenBy [("stage", _), ("theme", _), ("pacing", _)] partialOverlay :=
    { pacing := .cons hpacing .nil
      geometry := .cons hstage .nil
      others := by simpa [Others] using htheme }
  have hobject : ObjectOf GivenBy _ partialOverlay :=
    ⟨_, .members (.cons (memberText_plain "stage" (by decide) isBlanks_nil _)
        (.cons (memberText_plain "theme" (by decide) hspace _)
          (.last (memberText_plain "pacing" (by decide) hspace _)))), hgiven⟩
  have hbehind : IsBlanks ['\n'] := by decide
  convert Overlay.Document.padded isBlanks_nil hobject hbehind using 1
  decide +kernel

/-- A document that gives some settings of both sections, and the settings that are loaded. -/
theorem load_partialText :
    (Folder.single "engine.json" partialText).read "engine.json" = .ok partialText.toUTF8 ∧
      partialOverlay.Document partialText.toList ∧
      load (.single "engine.json" partialText) "engine.json" = .ok
        { pacing := ⟨5, 1000⟩
          geometry := { Geometry.standard with width := 7, targetStart := ⟨75, 40⟩ } } := by
  have hread : (Folder.single "engine.json" partialText).read "engine.json" = _ :=
    Folder.read_single _ (by decide +kernel) rfl
  exact ⟨hread, document_partialText, load_overlay hread document_partialText⟩

end Settings

end BlockScript
