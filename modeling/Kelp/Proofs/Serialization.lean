import Mathlib.Data.Set.Function
import Kelp.Proofs.Emission

/-!
# Texts of plain trees

A plain S-expression is built from words and from strings that hold no quote and no backslash.
Spaces and parentheses may stand in its strings, and there they separate nothing.

- `SExpr.injOn_text`: no two plain S-expressions have the same text, since the text of each is read
  back as the tree it was written from.
- `Module.plain_lower`: all that a source can name is a word, so the tree of its module is plain if
  the name of the module that host functions come from is.
- `serialization_inverted` has both, with the fact that reading leaves nothing of the text over.
-/

namespace Kelp

open SExpr (Delimited IsPlainBody isSpace)

/-- Texts of plain S-expressions tell them apart. -/
theorem SExpr.injOn_text : Set.InjOn SExpr.text {e | e.Plain} := by
  intro e he e' he' htext
  have hread := SExpr.read?_text (Plain.readable he)
  rw [htext, SExpr.read?_text (Plain.readable he')] at hread
  exact (Option.some.inj hread).symm

/-- **Trees of lowered modules** are plain, if the name of the module that host functions are
imported from is. -/
theorem Module.plain_lower {m : Module} (hm : m.WellNamed) {importModule : String}
    (himport : IsPlainBody importModule.toList) {t : Wat.Module}
    (h : m.lower importModule = .ok t) : t.toSExpr.Plain := by
  have hwell := Module.wellNamed_lower hm h
  obtain ⟨functions, -, rfl⟩ := Module.lower_eq_ok h
  refine Wat.Module.plain_toSExpr hwell fun i hi => ?_
  obtain ⟨d, -, rfl⟩ := List.mem_map.1 hi
  exact himport

/-- **Serialization is inverted by reading.** From the text of a plain S-expression exactly this
S-expression is read. Reading takes the whole text: with more behind it, set apart by a delimiter,
it still gives this S-expression if that is spaces only, and nothing otherwise. So plain
S-expressions with the same text are equal. And the tree of every module that a source is lowered to
is plain, whatever stands in the source, if the name of the module that host functions are imported
from has no quotes and no backslashes. -/
theorem serialization_inverted :
    (∀ e : SExpr, e.Plain → SExpr.read? e.text = some e ∧
      ∀ (rest : String) (e' : SExpr), Delimited rest.toList →
        (SExpr.read? (e.text ++ rest) = some e' ↔
          e' = e ∧ ∀ c ∈ rest.toList, isSpace c = true)) ∧
    Set.InjOn SExpr.text {e | e.Plain} ∧
    ∀ (source importModule : String) (m : Module) (t : Wat.Module),
      buildModule source = .ok m → IsPlainBody importModule.toList →
        m.lower importModule = .ok t → t.toSExpr.Plain := by
  refine ⟨fun e he => ⟨SExpr.read?_text he.readable, fun rest e' hrest =>
    SExpr.read?_text_append_iff he.readable hrest⟩, SExpr.injOn_text, ?_⟩
  intro source importModule m t hbuild himport hlower
  obtain ⟨p, hparse, rfl⟩ := buildModule_eq_ok_iff.1 hbuild
  have hwell := Module.wellFormed_ofProgram (Program.wellFormed_of_parse hparse)
  exact Module.plain_lower hwell.wellNamed himport hlower

/-- A source with one host function. -/
def relaySource : String := "import log as fn f(x: i32);"

/-- The text that `relaySource` is emitted as, where host functions come from `host (api)`. -/
def relayText : String := "(module (import \"host (api)\" \"f\" (func $f (param i32))))"

theorem relaySource_serialized : ∃ m t, buildModule relaySource = .ok m ∧
    m.lower "host (api)" = .ok t ∧ t.toSExpr.text = relayText ∧ t.toSExpr.Plain ∧
    SExpr.read? relayText = some t.toSExpr ∧
    SExpr.read? (relayText ++ "\n ") = some t.toSExpr ∧
    ∀ e, SExpr.read? (relayText ++ " ()") ≠ some e := by
  obtain ⟨hread, -, hplain⟩ := serialization_inverted
  have hemit : ((buildModule relaySource).toOption.bind fun m =>
      (m.lower "host (api)").toOption).map (fun t => t.toSExpr.text) = some relayText := by
    decide +kernel
  obtain ⟨t, ht, htext⟩ := Option.map_eq_some_iff.1 hemit
  obtain ⟨m, hm, hlower⟩ := Option.bind_eq_some_iff.1 ht
  rw [toOption_eq_some_iff] at hm hlower
  have htree := hplain relaySource "host (api)" m t hm (by decide) hlower
  obtain ⟨hwhole, hrest⟩ := hread t.toSExpr htree
  rw [htext] at hwhole hrest
  refine ⟨m, t, hm, hlower, htext, htree, hwhole,
    (hrest "\n " t.toSExpr rfl).2 ⟨rfl, List.all_eq_true.1 rfl⟩, fun e he => ?_⟩
  obtain ⟨-, hspaces⟩ := (hrest " ()" e rfl).1 he
  exact absurd (hspaces '(' (by decide)) (by decide)

end Kelp
