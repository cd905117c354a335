import TraceWeave.Proofs.ClassFile.Floats
import TraceWeave.Proofs.ClassFile.RoundTrip
import TraceWeave.Proofs.Weave.Literals
import TraceWeave.Proofs.Weave.Nesting

/-!
# Loading woven classes again

The text that is written for a woven class is read as the class with its floats read again
(`ClassStore.ofFileText?_eq_traverse`).  Weaving nests a class no more deeply than readers allow and
brings in no floats but zeros, so the text is refused in one case only: if a float of the loaded
class is infinite.  Such a float comes of a number in the file that is too great for 32 bits, and
would be written as null.
-/

namespace TraceWeave

open Json

/-- The text of a class is read as the class with its constants read again. -/
theorem ClassStore.ofFileText?_eq_traverse {c : Class}
    (hdepth : (c.toJson .file).depth ≤ maxNesting) :
    Class.ofFileText? (textOf .binary c) = c.traverse Value.reread := by
  have hread := c.readsAs .file fun v _ => v.readsAs_reread
  rw [textOf, Class.fileText, Class.ofFileText?, parse?_pretty hread.wellFormed, Option.bind_some,
    hread.read_eq maxNesting hdepth]

/-- The text of a class is read if its floats are finite. -/
theorem ClassStore.isSome_ofFileText?_textOf {c : Class}
    (hdepth : (c.toJson .file).depth ≤ maxNesting) :
    (Class.ofFileText? (textOf .binary c)).isSome = true ↔ ∀ v ∈ c.literals, v.isFinite = true := by
  rw [ofFileText?_eq_traverse hdepth, c.isSome_traverse]
  exact forall₂_congr fun v _ => by rw [v.isSome_reread]

/-- A class that was loaded is written, however it was woven, as a text that is loaded again just if
all its floats are finite. -/
theorem Plan.reloads_weaveRuns (runs : List (Plan × List Weaver)) (p : Program) (s : Session)
    {k : Nat} {c : Class} (hk : p.classes[k]? = some c) {text : String}
    (hload : Class.ofFileText? text = some c) :
    ∃ c', (weaveRuns runs p s).1.classes[k]? = some c' ∧
      ((Class.ofFileText? (ClassStore.textOf .binary c')).isSome = true ↔
        ∀ v ∈ c.literals, v.isFinite = true) := by
  obtain ⟨c', hk', hdepth⟩ := exists_getElem?_of_forall₂ (depth_weaveRuns runs p s) hk
  obtain ⟨c'', hk'', hliterals⟩ :=
    exists_getElem?_of_forall₂ (forall_literals_weaveRuns (P := fun v => v.isFinite = true)
      Value.isFinite_zero runs p s) hk
  cases hk'.symm.trans hk''
  refine ⟨c', hk', ?_⟩
  rw [ClassStore.isSome_ofFileText?_textOf (hdepth (Class.depth_of_ofFileText? hload)), hliterals]

namespace Plan

/-- A class whose method compares a variable with a limit. -/
def limiting (limit : Float32) : Class where
  name := "Foo"
  sourceFile := some "Foo.java"
  methods :=
    [{ name := "low", params := [⟨"x", .float⟩], returnType := .void,
       body :=
        { instrs :=
            [⟨⟨0⟩, 5, .branch (.binary .lt (.var ⟨"x", .float⟩) (.value (.float limit))) ⟨1⟩⟩,
              ⟨⟨1⟩, 6, .ret none⟩] } }]

/-- The float that is infinite. -/
def infinite : Float32 := Float32.ofBits 0x7f800000

/-- A number that is beyond the floats of 32 bits. -/
def beyond : Numeral := { whole := ['1'], exponent := some (.plus, ['3', '9']) }

/-- Floats are written as that number. -/
def beyondForm : FloatForm where
  single _ := .number beyond
  double _ := .number beyond

/-- The number is read as an infinite float. -/
theorem limiting_readsBack :
    ReadsBack Class.ofJson? ((limiting 0).toJson beyondForm) (limiting infinite) := by
  have hbeyond : beyond.WellFormed := by constructor <;> simp [beyond]
  have hread : ReadsBack Value.ofJson? ((Value.float 0).toJson beyondForm) (.float infinite) :=
    .variant (.number hbeyond) fun _ _ => rfl
  refine (limiting 0).readsAs beyondForm (f := fun _ => some (.float infinite)) fun v hv => ?_
  rwa [List.mem_singleton.1 hv]

/-- A class file with a number that is too great is loaded, but not what is written for the woven
class; with a smaller number it is. -/
theorem reloads_limiting :
    Class.ofFileText? ((limiting 0).toJson beyondForm).pretty = some (limiting infinite) ∧
      Class.ofFileText? ((limiting 0.5).toJson .file).pretty = some (limiting 0.5) ∧
      (∃ c, (weaveRuns [(requestingFive, productWeavers)]
          ⟨[limiting infinite, limiting 0.5]⟩ ∅).1.classes[0]? = some c ∧
        (Class.ofFileText? (ClassStore.textOf .binary c)).isSome = false) ∧
      ∃ c, (weaveRuns [(requestingFive, productWeavers)]
          ⟨[limiting infinite, limiting 0.5]⟩ ∅).1.classes[1]? = some c ∧
        (Class.ofFileText? (ClassStore.textOf .binary c)).isSome = true := by
  have hload : Class.ofFileText? ((limiting 0).toJson beyondForm).pretty =
      some (limiting infinite) := by
    rw [Class.ofFileText?, parse?_pretty limiting_readsBack.wellFormed, Option.bind_some,
      limiting_readsBack.read_eq maxNesting (by decide)]
  have hload' : Class.ofFileText? ((limiting 0.5).toJson .file).pretty =
      some (limiting 0.5) :=
    (@ClassStore.ofFileText?_eq_traverse (limiting 0.5) (by decide)).trans rfl
  obtain ⟨c, hc, hreload⟩ := reloads_weaveRuns [(requestingFive, productWeavers)]
    ⟨[limiting infinite, limiting 0.5]⟩ ∅ (k := 0) rfl hload
  obtain ⟨c', hc', hreload'⟩ := reloads_weaveRuns [(requestingFive, productWeavers)]
    ⟨[limiting infinite, limiting 0.5]⟩ ∅ (k := 1) rfl hload'
  refine ⟨hload, hload', ⟨c, hc, ?_⟩, c', hc', hreload'.2 (by decide)⟩
  rw [← Bool.not_eq_true, hreload]
  decide

end Plan

end TraceWeave
