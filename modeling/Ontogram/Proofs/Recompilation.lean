/-
Compiling a document again.

A compilation is made from the canonical form of a document. So nothing of it depends on the order of keys, not
even whether the document is accepted, and compiling the canonical text leads to the same compilation:

* `canonicalize_of_compile` — a compilation holds the canonical text of its document;
* `compile_eq_of_canonical` — everything else in it comes from the document read from that text;
* `compile_eq_ok_iff_of_reorders` — a value and one with its keys moved have the same compilation;
* `compileText_canonical` — and so has the canonical text;
* `compile_ignores_key_order` — all this together, for values and for texts;
* `compile_ignores_key_order_diamond` — for a diamond and a statement, all keys backwards.
-/
import Ontogram.Proofs.Acceptance
import Ontogram.Proofs.NormalForm
namespace Ontogram

open Traversal (bind_eq_ok_iff mapError_eq_ok_iff)

/-- What was compiled is a document, and the compilation holds its canonical text. -/
theorem canonicalize_of_compile {v : Json} {c : Compilation} (h : compile v = .ok c) :
    Document.canonicalize v = .ok c.canonical := by
  obtain ⟨canonical, hcanonical, h⟩ := bind_eq_ok_iff.mp h
  obtain ⟨d, -, h⟩ := bind_eq_ok_iff.mp h
  rw [mapError_eq_ok_iff] at hcanonical
  unfold Compilation.ofDocument at h
  split at h
  · cases h
    exact hcanonical
  · cases h

theorem canonical_of_compile {v : Json} {c : Compilation} (h : compile v = .ok c) :
    c.canonical = v.canonical :=
  (Document.canonicalize_eq_ok_iff.mp (canonicalize_of_compile h)).2.2.symm

theorem compileText_eq_ok_iff {text : Text} {c : Compilation} :
    compileText text = .ok c ↔ ∃ v, Json.parse text = .ok v ∧ compile v = .ok c := by
  unfold compileText
  simp only [bind_eq_ok_iff, mapError_eq_ok_iff, Document.decode_eq_ok_iff]

/-- The compilation of a text is that of the value it holds. -/
theorem compileText_of_parse {text : Text} {v : Json} (h : Json.parse text = .ok v) :
    compileText text = compile v := by
  rw [compileText, Document.decode_eq_ok_iff.mpr h]
  rfl

variable {v w : Json}

/-- What is compiled is the document read from the canonical text. -/
theorem compile_eq_of_canonical (hv : v.HasDistinctKeys) :
    compile v = (do
      let canonical ← (Document.canonicalize v).mapError .document
      let d ← (Document.parse canonical).mapError .document
      Compilation.ofDocument canonical d) := by
  unfold compile
  cases hcanonical : Document.canonicalize v with
  | error e => rfl
  | ok canonical =>
    have hread : (Document.parse canonical).mapError CompileError.document =
        (Document.ofJson v.sortKeys).mapError fun violation => .document (.violation violation) := by
      rw [Document.parse, Document.decode_eq_ok_iff.mpr (Document.parse_of_canonicalize hv hcanonical)]
      show ((Document.ofJson v.sortKeys).mapError _).mapError _ = _
      cases Document.ofJson v.sortKeys <;> rfl
    show (Except.mapError _ (Document.ofJson v.sortKeys) >>= Compilation.ofDocument canonical) = _
    rw [← hread]
    rfl

/-- A value and one with its keys moved have the same compilation or none. -/
theorem compile_eq_ok_iff_of_reorders (hv : v.HasDistinctKeys) (h : v.Reorders w) (c : Compilation) :
    compile v = .ok c ↔ compile w = .ok c := by
  rw [compile_eq_of_canonical hv, compile_eq_of_canonical (hv.of_reorders h)]
  simp only [bind_eq_ok_iff, mapError_eq_ok_iff, Document.canonicalize_eq_ok_iff_of_reorders hv h]

/-- Once a document has its canonical text, the text stands for it, also where it is refused for the
statements written beside the diagram. -/
theorem compileText_canonical (hv : v.HasDistinctKeys) {text : Text}
    (h : Document.canonicalize v = .ok text) : compileText text = compile v := by
  rw [compileText_of_parse (Document.parse_of_canonicalize hv h), compile_eq_of_canonical hv,
    compile_eq_of_canonical hv.sortKeys, h, Document.canonicalize_sortKeys hv h]

/-- Of two documents that differ only in the order of keys either both are refused, or both have the same
compilation, with all that it holds and all that is written from it. The canonical text of a document has its
compilation too. -/
theorem compile_ignores_key_order (hv : v.HasDistinctKeys) (h : v.Reorders w) :
    ((∃ e e', compile v = .error e ∧ compile w = .error e') ∨
      ∃ c, compile v = .ok c ∧ compile w = .ok c) ∧
    (∀ s t, Json.parse s = .ok v → Json.parse t = .ok w →
      compileText s = compile v ∧ compileText t = compile w) ∧
    (∀ text, Document.canonicalize v = .ok text → compileText text = compile v) ∧
    ∀ c, compile v = .ok c → compileText c.canonical = .ok c := by
  refine ⟨Traversal.error_or_ok_of_iff (compile_eq_ok_iff_of_reorders hv h),
    fun s t hs ht => ⟨compileText_of_parse hs, compileText_of_parse ht⟩,
    fun text htext => compileText_canonical hv htext, fun c hc => ?_⟩
  rw [compileText_canonical hv (canonicalize_of_compile hc), hc]

/-- A document of one diamond, its keys in order. -/
def diamondFields (namespaces diamond : Assoc Json) : Assoc Json :=
  [("domain", .str "p"), ("elements", .obj [("c", .obj diamond)]), ("prefixes", .obj namespaces),
    ("rawStatements", .str "<http://p/s> <http://p/says> \"a\" .")]

def diamondNamespaces : Assoc Json :=
  [("p", .str "http://p/"), ("rdf", .str "http://rdf/"), ("upper", .str "http://upper/")]

def diamond : Assoc Json :=
  [("height", .int 30), ("id", .str "c"), ("text", .str "Person (DC)"), ("type", .str "diamond"),
    ("width", .int 30), ("x", .int 0), ("y", .int 0)]

def diamondDocument : Json := .obj (diamondFields diamondNamespaces diamond)

/-- The same document with the keys of all its objects backwards. -/
def diamondDocumentBackwards : Json :=
  .obj (diamondFields diamondNamespaces.reverse diamond.reverse).reverse

theorem reorders_diamondDocument : diamondDocumentBackwards.Reorders diamondDocument := by
  have hmap : (Json.obj diamondNamespaces.reverse).Reorders (.obj diamondNamespaces) :=
    .fields (List.reverse_perm _)
  have helement : (Json.obj diamond.reverse).Reorders (.obj diamond) := .fields (List.reverse_perm _)
  refine .trans (.fields (List.reverse_perm _)) ?_
  exact .trans (.value [_] [_, _] "elements" (.value [] [] "c" helement)) (.value [_, _] [_] "prefixes" hmap)

theorem hasSortedKeys_diamondDocument : diamondDocument.HasSortedKeys := by
  have hmap : (Json.obj diamondNamespaces).HasSortedKeys := by
    refine .obj (by decide) ?_
    simp only [diamondNamespaces, List.forall_mem_cons]
    exact ⟨.str _, .str _, .str _, List.forall_mem_nil _⟩
  have helement : (Json.obj diamond).HasSortedKeys := by
    refine .obj (by decide) ?_
    simp only [diamond, List.forall_mem_cons]
    exact ⟨.int _, .str _, .str _, .str _, .int _, .int _, .int _, List.forall_mem_nil _⟩
  refine .obj (by decide) ?_
  simp only [diamondFields, List.forall_mem_cons]
  exact ⟨.str _, .obj (by decide) (List.forall_mem_singleton.mpr helement), hmap, .str _,
    List.forall_mem_nil _⟩

def readDiamond : Document where
  namespaces := [("p", "http://p/"), ("rdf", "http://rdf/"), ("upper", "http://upper/")]
  domain := "p"
  elements := [("c", .diamond ⟨"c", .int 0, .int 0, .int 30, .int 30, "Person (DC)"⟩)]
  rawStatements := "<http://p/s> <http://p/says> \"a\" ."

theorem compile_diamondDocument :
    ∃ c, compile diamondDocument = .ok c ∧
      ⟨"p:Person", "rdf:type", .name "upper:DirectClass"⟩ ∈ c.generated ∧
      c.raw = [⟨"p:s", "p:says", .literal ⟨"a", none, none⟩⟩] := by
  have hdocument : Document.ofJson diamondDocument = .ok readDiamond := by decide +kernel
  have hraw : NTriples.parseRaw readDiamond.namespaces readDiamond.rawStatements =
      .ok [⟨"p:s", "p:says", .literal ⟨"a", none, none⟩⟩] := by
    decide +kernel
  have hcanonical := Document.canonicalize_eq_ok_iff.mpr ⟨⟨_, hdocument⟩, by decide +kernel, rfl⟩
  rw [compile, hcanonical, hasSortedKeys_diamondDocument.sortKeys_eq_self, hdocument]
  simp only [Except.mapError, bind, Except.bind, Compilation.ofDocument, hraw]
  exact ⟨_, rfl, by decide +kernel, rfl⟩

theorem compile_ignores_key_order_diamond :
    diamondDocumentBackwards.HasDistinctKeys ∧ diamondDocumentBackwards.Reorders diamondDocument ∧
      ∃ c, compile diamondDocumentBackwards = .ok c ∧ compile diamondDocument = .ok c ∧
        ⟨"p:Person", "rdf:type", .name "upper:DirectClass"⟩ ∈ c.generated ∧
        c.raw = [⟨"p:s", "p:says", .literal ⟨"a", none, none⟩⟩] ∧ compileText c.canonical = .ok c := by
  have hreorders := reorders_diamondDocument
  have hdistinct := hasSortedKeys_diamondDocument.hasDistinctKeys.of_reorders hreorders.symm
  obtain ⟨hsame, -, -, hagain⟩ := compile_ignores_key_order hdistinct hreorders
  obtain ⟨c, hc, hgenerated, hraw⟩ := compile_diamondDocument
  have hc' := (compile_eq_ok_iff_of_reorders hdistinct hreorders c).mpr hc
  exact ⟨hdistinct, hreorders, c, hc', hc, hgenerated, hraw, hagain c hc'⟩

/-! ### A document that UTF-8 cannot hold -/

theorem hasDistinctKeys_rawDocument (label ns raw : Text) : (rawDocument label ns raw).HasDistinctKeys := by
  have hmap : (Json.obj [(label, .str ns)]).HasDistinctKeys :=
    .obj (List.nodup_singleton _) (List.forall_mem_singleton.mpr (.str _))
  refine .obj (show (["domain", "elements", "prefixes", "rawStatements"] : List Text).Nodup by decide) ?_
  simp only [documentFields, List.forall_mem_cons]
  exact ⟨.str _, .obj (by decide) (List.forall_mem_nil _), hmap, .str _, List.forall_mem_nil _⟩

/-- Half of a surrogate pair, which JSON text can spell and UTF-8 cannot. -/
def halfLabel : Text := ⟨[.half 0]⟩

/-- A document with that label. -/
def halfDocument : Json := rawDocument halfLabel "http://p/" ""

theorem hasDistinctKeys_halfDocument : halfDocument.HasDistinctKeys := hasDistinctKeys_rawDocument _ _ _

theorem isEncodable_halfDocument : halfDocument.isEncodable = false := by decide

/-- The document compiles. -/
theorem compile_halfDocument : ∃ c, compile halfDocument = .ok c ∧ c.canonical = halfDocument.canonical := by
  have hraw : NTriples.parseRaw [(halfLabel, "http://p/")] "" = .ok [] := rfl
  exact ⟨_, compile_rawDocument hraw, rfl⟩

end Ontogram
