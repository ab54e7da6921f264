import VisualBlocks.Proofs.Generation.Alike
import VisualBlocks.Proofs.LifeCycle
import VisualBlocks.Proofs.Registration
import VisualBlocks.Proofs.StatementOrder

/-!
# Through an adapter and without one

The program of a workspace can be had from the generator of a preset, or be delivered by an adapter
whose editor holds the workspace.  **Both ways always succeed and give the same text, and the types
that are declared on top of the built-in ones do not change it** (`codeThroughAdapter_eq`).

* Further types stand behind the built-in ones and cannot take their names, so whatever is declared
  stays declared as it is (`get?_of_extends`).
* All types that the toolbox mentions are built in, so the editor accepts it
  (`unknownTypes_eq_nil`).
* The rules that look at declarations are those that the automation and the canvas vocabulary add,
  and they look at the types they are for, which are built in (`alike_extends`).

A block of a further type is itself no different from one of an unknown type: no rule is for it, and
what stands for it is marked by the name of the type.
-/

set_option autoImplicit false

namespace VisualBlocks

open Generation Workspace

namespace Registry

/-- Do the types of the registry stand first in the other one? -/
def Extends (r r' : Registry) : Prop := r.types <+: r'.types

variable {r r' : Registry} {name : String}

/-- What is declared stays declared, and as it is. -/
theorem get?_of_extends (h : r.Extends r') (hname : r.contains name = true) :
    r'.get? name = r.get? name := by
  obtain ⟨t, ht⟩ := Option.isSome_iff_exists.1 hname
  obtain ⟨batch, hbatch⟩ := h
  rw [get?] at ht
  rw [get?, get?, ← hbatch, List.find?_append, ht, Option.some_or]

theorem contains_of_extends (h : r.Extends r') (hname : r.contains name = true) :
    r'.contains name = true := by
  rw [contains, get?_of_extends h hname]
  exact hname

end Registry

/-- An editor accepts a toolbox if all types that it mentions are declared. -/
theorem Toolbox.unknownTypes_eq_nil {t : Toolbox} {r : Registry}
    (h : ∀ name ∈ t.mentioned, r.contains name = true) : t.unknownTypes r = [] := by
  rw [unknownTypes, List.filter_eq_nil_iff.2, List.eraseDups_nil]
  intro name hname
  rw [h name hname]
  exact Bool.false_ne_true

/-- An adapter is mounted with an editor that accepts its toolbox. -/
theorem Adapter.mount_of_inject {ε φ : Type} [EmbeddedEditor ε φ] {a : Adapter ε} {e e' : ε}
    (hstate : a.state = .unmounted)
    (hinject : EmbeddedEditor.inject e a.registry a.toolbox = .ok e') :
    a.mount e = .ok (true, { a with editor := some e', state := .mounted }) := by
  rw [mount, hstate]
  dsimp only
  rw [hinject]

namespace Vocabulary

/-- The built-in types of a vocabulary. -/
def builtin (v : Vocabulary) : Registry := ⟨v.types⟩

/-- All types that the toolbox mentions are built in. -/
theorem builtin_mentioned (v : Vocabulary) : ∀ name ∈ v.toolbox.mentioned,
    v.builtin.contains name = true := by
  cases v <;> decide

/-- All types for which a vocabulary adds a rule are built in. -/
theorem builtin_addedRules (v : Vocabulary) : ∀ name ∈ (addedRules v).map (·.1),
    v.builtin.contains name = true := by
  cases v <;> decide

/-- **A preset is made over the built-in types and what stands behind them.** -/
theorem presetWith_eq_ok {v : Vocabulary} {custom : Option String} {p : Preset}
    (h : v.presetWith custom = .ok p) :
    ∃ registry, v.builtin.Extends registry ∧ p = v.presetOver registry := by
  cases custom with
  | none => exact ⟨v.builtin, List.prefix_rfl, (Except.ok.inj h).symm⟩
  | some text =>
    rw [presetWith] at h
    cases hregister : (⟨v.types⟩ : Registry).registerJson text with
    | error e =>
      rw [hregister] at h
      cases h
    | ok registry =>
      rw [hregister] at h
      obtain ⟨batch, -, -, rfl⟩ := (Registry.Call.apply_eq_ok_iff (c := .text text)).1 hregister
      exact ⟨_, List.prefix_append _ _, (Except.ok.inj h).symm⟩

/-- Blocks look the same to a vocabulary whatever types are declared behind the built-in ones. -/
theorem alike_extends (v : Vocabulary) {registry : Registry} (h : v.builtin.Extends registry)
    (n : Node) : (v.generator v.builtin).Alike (v.generator registry) n n where
  type := rfl
  inputs := rfl
  next := rfl
  rule := by cases v <;> rfl
  agrees _ hrule := by
    have hregistry (r : Registry) : (v.generator r).registry = r := by cases v <;> rfl
    have hresembles : Site.Resembles
        ⟨n, (v.generator v.builtin).language, (v.generator v.builtin).indent,
          (v.generator v.builtin).registry⟩
        ⟨n, (v.generator registry).language, (v.generator registry).indent,
          (v.generator registry).registry⟩ :=
      ⟨rfl, rfl, fun _ => rfl, rfl, rfl, fun _ => rfl, by cases v <;> rfl, by cases v <;> rfl⟩
    refine hresembles.agrees v v.builtin (fun htype => ?_) hrule
    rw [hregistry, hregistry]
    exact Registry.get?_of_extends h (builtin_addedRules v _ htype)

/-- **Types that are declared behind the built-in ones do not change any program.** -/
theorem code_extends (v : Vocabulary) {registry : Registry} (h : v.builtin.Extends registry)
    (w : Workspace) : (v.generator registry).code w = (v.generator v.builtin).code w := by
  have hsame : (v.generator registry).generate w.graph w.top =
      (v.generator v.builtin).generate w.graph w.top :=
    Generator.generate_congr (by rw [generator_language, generator_language])
      (by cases v <;> rfl) rfl (fun id => alike_extends v h _) w.top
  exact congrArg (fun text => text.getD "") hsame

/-- **The editor of an adapter for a preset accepts the toolbox.** -/
theorem mount_presetOver (v : Vocabulary) {registry : Registry} (h : v.builtin.Extends registry)
    (w : Workspace) :
    ∃ a, (v.presetOver registry).adapter.mount (Editor.new w) = .ok (true, a) ∧
      a.editor.map Editor.workspace = some w ∧ a.state = .mounted ∧
      a.generator = v.generator registry := by
  have htoolbox : v.toolbox.unknownTypes registry = [] :=
    Toolbox.unknownTypes_eq_nil fun name hname =>
      Registry.contains_of_extends h (builtin_mentioned v name hname)
  have hinject : EmbeddedEditor.inject (Editor.new w) registry v.toolbox =
      .ok { Editor.new w with injected := true, palette := v.toolbox.palette } := by
    show (Editor.new w).inject registry v.toolbox = _
    rw [Editor.inject, htoolbox]
  let a : Adapter Editor := (v.presetOver registry).adapter
  have hmount : a.mount (Editor.new w) = .ok (true, { a with
      editor := some { Editor.new w with injected := true, palette := v.toolbox.palette }
      state := .mounted }) :=
    Adapter.mount_of_inject rfl hinject
  exact ⟨_, hmount, rfl, rfl, rfl⟩

end Vocabulary

/-- **An adapter delivers what the generator gives.**  For every vocabulary, with any further types
that can be registered, and for every workspace that can be reached: the editor is mounted, the
generator comes to an end, and its text is the one that the adapter delivers.  It is also the text
of the preset that has the built-in types only. -/
theorem Preset.codeThroughAdapter_eq (v : Vocabulary) (custom : Option String) {p : Preset}
    (hp : v.presetWith custom = .ok p) {w : Workspace} (hw : w.Reachable) :
    (∃ a, p.adapter.mount (Editor.new w) = .ok (true, a)) ∧
    p.generator.generate w.graph w.top = some (p.generator.code w) ∧
    p.codeThroughAdapter w = .ok (p.generator.code w) ∧
    p.generator.code w = v.preset.generator.code w := by
  obtain ⟨registry, hextends, rfl⟩ := Vocabulary.presetWith_eq_ok hp
  obtain ⟨a, hmount, heditor, hstate, hgenerator⟩ := v.mount_presetOver hextends w
  refine ⟨⟨a, hmount⟩, hw.linked.generate_eq_code v registry, ?_, v.code_extends hextends w⟩
  obtain ⟨e, he, rfl⟩ := Option.map_eq_some_iff.1 heditor
  rw [codeThroughAdapter, hmount]
  dsimp only [bind, Except.bind, pure, Except.pure]
  rw [Adapter.handle_structural rfl hstate he, hgenerator]
  rfl

/-- A type of further blocks, with numbers for values. -/
def memoType : String := "[\x7b\"type\": \"memo\", \"output\": \"Number\"\x7d]"

/-- A circle with such a block for its radius. -/
def memoCircle : Workspace :=
  ⟨[{ Block.fresh "circle" "draw_circle" with inputs := ⟨[("RADIUS", "memo")]⟩ },
    { Block.fresh "memo" "memo" with parent := some ⟨"circle", .input⟩ }]⟩

theorem memoCircle_reachable : memoCircle.Reachable :=
  (((Workspace.Reachable.empty.step (.add "circle" "draw_circle" rfl)).step
    (.add "memo" "memo" rfl)).step (.connectInput "circle" "RADIUS" "memo" rfl))

/-- The radius that the circle has by itself stays the default, whatever the further type gives. -/
theorem memoCircle_through_adapter :
    ∃ p, Vocabulary.canvas.presetWith (some memoType) = .ok p ∧
      p.registry.contains "memo" = true ∧
      p.codeThroughAdapter memoCircle =
        .ok "drawCircle(0, 0, /* Unsupported block type: memo */ 10);\n" := by
  have hparse : Json.parse memoType = some (.array
      [.object [("output", .string "Number"), ("type", .string "memo")]]) := by
    cbv
  have hpreset : ∃ p, Vocabulary.canvas.presetWith (some memoType) = .ok p ∧
      p.registry.contains "memo" = true := by
    rw [Vocabulary.presetWith, Registry.registerJson, Registry.readDescriptors, hparse]
    exact ⟨_, rfl, rfl⟩
  obtain ⟨p, hp, hmemo⟩ := hpreset
  obtain ⟨-, -, hadapter, hcode⟩ :=
    Preset.codeThroughAdapter_eq .canvas (some memoType) hp memoCircle_reachable
  refine ⟨p, hp, hmemo, ?_⟩
  rw [hadapter, hcode]
  exact congrArg _ (by decide +kernel)

end VisualBlocks
