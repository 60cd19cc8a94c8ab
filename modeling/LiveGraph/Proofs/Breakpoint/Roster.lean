import LiveGraph.Proofs.Breakpoint.Choice
import Mathlib.Data.List.Nodup
import Mathlib.Logic.Function.Basic

/-!
# Rosters

What the service for breakpoints goes by: the entities by age, with their types, paths, lines and columns, and which
are linked to which. A toggle changes the roster in the same way whatever URIs the breakpoints have that were added
before, and whatever URI it gives to a new one.
-/

namespace LiveGraph.Breakpoint

/-- What the service looks at of an entity. -/
structure Item where
  uri : Uri
  kind : String
  path : Value
  line : Value
  column : Value
  deriving DecidableEq

namespace Item

def rename (ρ : Uri → Uri) (x : Item) : Item :=
  { x with uri := ρ x.uri }

/-- A source without a path. -/
def isUntagged (x : Item) : Bool :=
  x.kind = sourceKind && x.path.isNil

/-- The source of a path. -/
def ofPath (uri : Uri) (path : String) : Item :=
  ⟨uri, sourceKind, .str path, .nil, .nil⟩

/-- The breakpoint at a location. -/
def ofLocation (uri : Uri) (l : Location) : Item :=
  ⟨uri, Breakpoint.kind, .str l.path, .int (Int64.ofNat l.line),
    l.column.elim .nil fun column ↦ .int (Int64.ofNat column)⟩

def withPath (path : String) (x : Item) : Item :=
  { x with path := .str path }

end Item

/-- What the service goes by. -/
@[ext]
structure Roster where
  items : List Item
  linked : Uri → List Uri

namespace Roster

def uris (R : Roster) : List Uri :=
  R.items.map (·.uri)

def item? (R : Roster) (uri : Uri) : Option Item :=
  R.items.find? (·.uri = uri)

/-- The source of a path: the oldest that has it. -/
def source? (R : Roster) (path : String) : Option Item :=
  R.items.find? fun x ↦ x.kind = sourceKind ∧ x.path = .str path

/-- The breakpoints that are linked to the source of a path. -/
def onPath (R : Roster) (path : String) : List Item :=
  (R.source? path).elim [] fun x ↦ ((R.linked x.uri).filterMap R.item?).filter (·.kind = Breakpoint.kind)

/-- Line and column of each breakpoint on a path. -/
def marks (R : Roster) (path : String) : List (Value × Value) :=
  (R.onPath path).map fun x ↦ (x.line, x.column)

/-- The breakpoint that a location means. -/
def meant (R : Roster) (l : Location) : Option Item :=
  choose (l.column.map Int64.ofNat)
    (((R.onPath l.path).filter fun x ↦ x.line.asInt? = some (Int64.ofNat l.line)).map fun x ↦ (x, x.column.asInt?))

/-- The first URI for the source of a path that nobody has, or that a source without a path has. -/
def seatFrom (R : Roster) (path : String) : Nat → Nat → Option Uri
  | 0, _ => none
  | tries + 1, n =>
    if (R.item? (sourceUri path n)).all Item.isUntagged then some (sourceUri path n)
    else R.seatFrom path tries (n + 1)

def seat (R : Roster) (path : String) : Option Uri :=
  R.seatFrom path (R.items.length + 1) 0

def withItem (R : Roster) (x : Item) : Roster :=
  { R with items := R.items ++ [x] }

def tagged (R : Roster) (uri : Uri) (path : String) : Roster :=
  { R with items := R.items.map fun x ↦ if x.uri = uri then x.withPath path else x }

/-- A source for a path at a URI. -/
def seated (R : Roster) (uri : Uri) (path : String) : Roster :=
  if (R.item? uri).isSome then R.tagged uri path else R.withItem (.ofPath uri path)

/-- The URI of the source of a path, and the roster with that source. -/
def ensured (R : Roster) (path : String) : Uri × Roster :=
  (R.source? path).elim ((R.seat path).elim ("", R) fun uri ↦ (uri, R.seated uri path)) fun x ↦ (x.uri, R)

def link (R : Roster) (uri target : Uri) : Roster :=
  { R with linked := Function.update R.linked target (R.linked target ++ [uri]) }

/-- One more breakpoint, linked to its source. -/
def inserted (R : Roster) (fresh : Uri) (l : Location) : Roster :=
  ((R.ensured l.path).2.withItem (.ofLocation fresh l)).link fresh (R.ensured l.path).1

def without (R : Roster) (uri : Uri) : Roster :=
  ⟨R.items.filter (·.uri ≠ uri), fun target ↦ if target = uri then [] else (R.linked target).filter (· ≠ uri)⟩

/-- What a toggle comes to. -/
def toggled (R : Roster) (fresh : Uri) (l : Location) : Roster :=
  (R.meant l).elim (R.inserted fresh l) fun x ↦ R.without x.uri

/-- There is one item for a URI, and links are between items. -/
structure Closed (R : Roster) : Prop where
  nodup : R.uris.Nodup
  linked_mem : ∀ target, ∀ uri ∈ R.linked target, uri ∈ R.uris
  linked_nil : ∀ target, target ∉ R.uris → R.linked target = []

theorem mem_uris {R : Roster} {x : Item} (h : x ∈ R.items) : x.uri ∈ R.uris :=
  List.mem_map.mpr ⟨x, h, rfl⟩

theorem item?_eq_some {R : Roster} {uri : Uri} {x : Item} (h : R.item? uri = some x) : x ∈ R.items ∧ x.uri = uri :=
  ⟨List.mem_of_find?_eq_some h, by simpa using List.find?_some h⟩

theorem isSome_item? {R : Roster} {uri : Uri} : (R.item? uri).isSome ↔ uri ∈ R.uris := by
  rw [item?, List.find?_isSome, uris, List.mem_map]
  simp

theorem source?_mem {R : Roster} {path : String} {x : Item} (h : R.source? path = some x) : x ∈ R.items :=
  List.mem_of_find?_eq_some h

theorem uris_withItem (R : Roster) (x : Item) : (R.withItem x).uris = R.uris ++ [x.uri] :=
  List.map_append

theorem uris_tagged (R : Roster) (uri : Uri) (path : String) : (R.tagged uri path).uris = R.uris := by
  rw [uris, tagged, List.map_map]
  refine List.map_congr_left fun x _ ↦ ?_
  rw [Function.comp_apply]
  split <;> rfl

/-- The service looks among the items, whatever it looks for. -/
theorem onPath_mem {R : Roster} {path : String} {x : Item} (h : x ∈ R.onPath path) : x ∈ R.items := by
  unfold Roster.onPath at h
  cases hsource : R.source? path with
  | none =>
    rw [hsource] at h
    exact absurd h List.not_mem_nil
  | some s =>
    rw [hsource] at h
    obtain ⟨uri, -, hitem⟩ := List.mem_filterMap.mp (List.mem_filter.mp h).1
    exact (item?_eq_some hitem).1

/-- The breakpoint that a location means is one of the items. -/
theorem meant_mem {R : Roster} {l : Location} {x : Item} (h : R.meant l = some x) : x ∈ R.items := by
  obtain ⟨column, hmem⟩ := mem_of_choose h
  obtain ⟨y, hy, heq⟩ := List.mem_map.mp hmem
  exact (Prod.mk.inj heq).1 ▸ onPath_mem (List.mem_filter.mp hy).1

theorem seatFrom_eq_some {R : Roster} {path : String} {tries n : Nat} {uri : Uri}
    (h : R.seatFrom path tries n = some uri) :
    (∃ m, uri = sourceUri path m) ∧ (R.item? uri).all Item.isUntagged = true := by
  induction tries generalizing n with
  | zero => exact absurd h.symm (Option.some_ne_none uri)
  | succ tries ih =>
    rw [seatFrom] at h
    split at h
    · obtain rfl := Option.some.inj h
      exact ⟨⟨n, rfl⟩, ‹_›⟩
    · exact ih h

namespace Closed

variable {R : Roster} (h : R.Closed)
include h

theorem withItem {x : Item} (hnew : x.uri ∉ R.uris) : (R.withItem x).Closed where
  nodup := by
    rw [uris_withItem]
    exact List.nodup_append.mpr ⟨h.nodup, List.nodup_singleton _, fun a ha b hb heq ↦
      hnew (List.mem_singleton.mp hb ▸ heq ▸ ha)⟩
  linked_mem target uri huri := by
    rw [uris_withItem]
    exact List.mem_append_left _ (h.linked_mem target uri huri)
  linked_nil target hnot := by
    rw [uris_withItem] at hnot
    exact h.linked_nil target fun hmem ↦ hnot (List.mem_append_left _ hmem)

theorem tagged (uri : Uri) (path : String) : (R.tagged uri path).Closed := by
  have huris := R.uris_tagged uri path
  exact ⟨huris ▸ h.nodup, fun target u hu ↦ huris ▸ h.linked_mem target u hu,
    fun target hnot ↦ h.linked_nil target (huris ▸ hnot)⟩

theorem seated (uri : Uri) (path : String) : (R.seated uri path).Closed := by
  rw [Roster.seated]
  split
  · exact h.tagged uri path
  · rename_i hnone
    exact h.withItem fun hmem ↦ hnone (isSome_item?.mpr hmem)

theorem ensured (path : String) : (R.ensured path).2.Closed := by
  rw [Roster.ensured]
  cases R.source? path with
  | some x => exact h
  | none =>
    cases R.seat path with
    | none => exact h
    | some uri => exact h.seated uri path

end Closed

end Roster

/-- A URI that the service gives to breakpoints. -/
def IsNumbered (uri : Uri) : Prop :=
  ∃ n, uri = numbered n

/-- No source has the URI of a breakpoint. -/
theorem not_isNumbered_sourceUri (path : String) (n : Nat) : ¬IsNumbered (sourceUri path n) := by
  rintro ⟨m, heq⟩
  have hfirst := congrArg (·.toList.head?) heq
  have hsource : (sourceUri path n).toList.head? = some 's' := by
    cases n with
    | zero =>
      rw [sourceUri, String.toList_append]
      rfl
    | succ n =>
      rw [sourceUri, String.toList_append, String.toList_append, String.toList_append]
      · rfl
      · exact Nat.succ_ne_zero n
  have hnumbered : (numbered m).toList.head? = some 'b' := by
    rw [numbered, String.toList_append]
    rfl
  rw [hsource, hnumbered] at hfirst
  exact absurd hfirst (by decide)

/-- Two rosters that differ in the URIs of breakpoints. -/
structure Renamed (ρ : Uri → Uri) (R R' : Roster) : Prop where
  items_eq : R'.items = R.items.map (Item.rename ρ)
  linked_eq : ∀ x ∈ R.items, R'.linked (ρ x.uri) = (R.linked x.uri).map ρ
  injective : ∀ x ∈ R.items, ∀ y ∈ R.items, ρ x.uri = ρ y.uri → x.uri = y.uri
  fixed : ∀ x ∈ R.items, ρ x.uri = x.uri ∨ IsNumbered x.uri ∧ IsNumbered (ρ x.uri)

namespace Renamed

open Roster

theorem refl (R : Roster) : Renamed id R R where
  items_eq := (List.map_id _).symm
  linked_eq _ _ := (List.map_id _).symm
  injective _ _ _ _ h := h
  fixed _ _ := .inl rfl

variable {ρ : Uri → Uri} {R R' : Roster} (h : Renamed ρ R R')
include h

/-! ## What is found -/

theorem length_eq : R'.items.length = R.items.length := by
  rw [h.items_eq, List.length_map]

theorem uris_eq : R'.uris = R.uris.map ρ := by
  rw [uris, h.items_eq, uris, List.map_map, List.map_map]
  rfl

/-- Under a URI that stands for another there is what was under that. -/
theorem item?_of {uri uri' : Uri} (huri : ∀ x ∈ R.items, ρ x.uri = uri' ↔ x.uri = uri) :
    R'.item? uri' = (R.item? uri).map (Item.rename ρ) := by
  rw [item?, h.items_eq, List.find?_map, item?]
  have hcond : ∀ x ∈ R.items, ((fun x ↦ decide (x.uri = uri')) ∘ Item.rename ρ) x = decide (x.uri = uri) :=
    fun x hx ↦ decide_eq_decide.mpr (huri x hx)
  rw [← List.head?_filter, ← List.head?_filter, List.filter_congr hcond]

theorem item?_rename {uri : Uri} (huri : uri ∈ R.uris) : R'.item? (ρ uri) = (R.item? uri).map (Item.rename ρ) := by
  obtain ⟨y, hy, rfl⟩ := List.mem_map.mp huri
  exact h.item?_of fun x hx ↦ ⟨h.injective x hx y hy, fun heq ↦ congrArg ρ heq⟩

/-- What no breakpoint has been given stays under its URI. -/
theorem item?_plain {uri : Uri} (hplain : ¬IsNumbered uri) : R'.item? uri = (R.item? uri).map (Item.rename ρ) := by
  refine h.item?_of fun x hx ↦ ?_
  rcases h.fixed x hx with hsame | ⟨hnumbered, hnumbered'⟩
  · rw [hsame]
  · exact ⟨fun heq ↦ absurd (heq ▸ hnumbered') hplain, fun heq ↦ absurd (heq ▸ hnumbered) hplain⟩

theorem source?_eq (path : String) : R'.source? path = (R.source? path).map (Item.rename ρ) := by
  rw [source?, h.items_eq, List.find?_map]
  rfl

theorem onPath_eq (hR : R.Closed) (path : String) : R'.onPath path = (R.onPath path).map (Item.rename ρ) := by
  unfold Roster.onPath
  rw [h.source?_eq]
  cases hsource : R.source? path with
  | none => rfl
  | some x =>
    have hfound : ((R.linked x.uri).map ρ).filterMap R'.item? =
        ((R.linked x.uri).filterMap R.item?).map (Item.rename ρ) := by
      rw [List.filterMap_map, List.map_filterMap]
      exact List.filterMap_congr fun uri huri ↦ h.item?_rename (hR.linked_mem x.uri uri huri)
    have hlinked := h.linked_eq x (source?_mem hsource)
    simp only [Option.map_some, Option.elim_some, Item.rename] at hlinked ⊢
    rw [hlinked, hfound, List.filter_map]
    rfl

theorem marks_eq (hR : R.Closed) (path : String) : R'.marks path = R.marks path := by
  rw [marks, h.onPath_eq hR, List.map_map]
  rfl

theorem meant_eq (hR : R.Closed) (l : Location) : R'.meant l = (R.meant l).map (Item.rename ρ) := by
  rw [meant, h.onPath_eq hR, meant, ← choose_map, List.filter_map, List.map_map, List.map_map]
  rfl

theorem seatFrom_eq (path : String) (tries n : Nat) : R'.seatFrom path tries n = R.seatFrom path tries n := by
  induction tries generalizing n with
  | zero => rfl
  | succ tries ih =>
    have hall : (R'.item? (sourceUri path n)).all Item.isUntagged =
        (R.item? (sourceUri path n)).all Item.isUntagged := by
      rw [h.item?_plain (not_isNumbered_sourceUri path n), Option.all_map]
      rfl
    rw [seatFrom, hall, ih, seatFrom]

theorem seat_eq (path : String) : R'.seat path = R.seat path := by
  rw [seat, h.length_eq, h.seatFrom_eq, seat]

/-! ## What is changed -/

/-- One more item, under a new URI on both sides. -/
theorem withItem (hR : R.Closed) (hR' : R'.Closed) {x : Item} {uri' : Uri} (hnew : x.uri ∉ R.uris)
    (hnew' : uri' ∉ R'.uris) (hfixed : uri' = x.uri ∨ IsNumbered x.uri ∧ IsNumbered uri') :
    Renamed (Function.update ρ x.uri uri') (R.withItem x) (R'.withItem { x with uri := uri' }) := by
  have hold : ∀ uri ∈ R.uris, Function.update ρ x.uri uri' uri = ρ uri := fun uri huri ↦
    Function.update_of_ne (ne_of_mem_of_not_mem huri hnew) _ _
  have hself : Function.update ρ x.uri uri' x.uri = uri' := Function.update_self ..
  have hmem : ∀ y ∈ (R.withItem x).items, y ∈ R.items ∨ y = x := fun y hy ↦
    (List.mem_append.mp hy).imp_right List.mem_singleton.mp
  have hrenamed : ∀ y ∈ R.items, ρ y.uri ∈ R'.uris := fun y hy ↦ by
    rw [h.uris_eq]
    exact List.mem_map.mpr ⟨y.uri, mem_uris hy, rfl⟩
  refine ⟨?_, fun y hy ↦ ?_, fun y hy z hz heq ↦ ?_, fun y hy ↦ ?_⟩
  · have hitems : R.items.map (Item.rename (Function.update ρ x.uri uri')) = R.items.map (Item.rename ρ) :=
      List.map_congr_left fun y hy ↦ by rw [Item.rename, hold y.uri (mem_uris hy), Item.rename]
    have hlast : Item.rename (Function.update ρ x.uri uri') x = { x with uri := uri' } := by
      rw [Item.rename, hself]
    calc
      R'.items ++ [{ x with uri := uri' }]
        = R.items.map (Item.rename (Function.update ρ x.uri uri')) ++
            [x].map (Item.rename (Function.update ρ x.uri uri')) := by
          rw [hitems, h.items_eq, List.map_singleton, hlast]
      _ = (R.withItem x).items.map (Item.rename (Function.update ρ x.uri uri')) := List.map_append.symm
  · change R'.linked (Function.update ρ x.uri uri' y.uri) = (R.linked y.uri).map (Function.update ρ x.uri uri')
    rw [List.map_congr_left fun uri huri ↦ hold uri (hR.linked_mem y.uri uri huri)]
    rcases hmem y hy with hy | rfl
    · rw [hold y.uri (mem_uris hy)]
      exact h.linked_eq y hy
    · rw [hself, hR'.linked_nil uri' hnew', hR.linked_nil y.uri hnew]
      rfl
  · rcases hmem y hy with hy | hy <;> rcases hmem z hz with hz | hz
    · rw [hold y.uri (mem_uris hy), hold z.uri (mem_uris hz)] at heq
      exact h.injective y hy z hz heq
    · rw [hold y.uri (mem_uris hy), hz, hself] at heq
      exact absurd (heq ▸ hrenamed y hy) hnew'
    · rw [hy, hself, hold z.uri (mem_uris hz)] at heq
      exact absurd (heq.symm ▸ hrenamed z hz) hnew'
    · rw [hy, hz]
  · rcases hmem y hy with hy | rfl
    · rw [hold y.uri (mem_uris hy)]
      exact h.fixed y hy
    · rw [hself]
      exact hfixed

theorem tagged {uri : Uri} (hplain : ¬IsNumbered uri) (path : String) :
    Renamed ρ (R.tagged uri path) (R'.tagged uri path) := by
  have hmem : ∀ y ∈ (R.tagged uri path).items, ∃ x ∈ R.items, x.uri = y.uri := fun y hy ↦ by
    obtain ⟨x, hx, rfl⟩ := List.mem_map.mp hy
    refine ⟨x, hx, ?_⟩
    split <;> rfl
  refine ⟨?_, fun y hy ↦ ?_, fun y hy z hz heq ↦ ?_, fun y hy ↦ ?_⟩
  · rw [Roster.tagged, h.items_eq, Roster.tagged, List.map_map, List.map_map]
    refine List.map_congr_left fun x hx ↦ ?_
    have hiff : ρ x.uri = uri ↔ x.uri = uri := by
      rcases h.fixed x hx with hsame | ⟨hnumbered, hnumbered'⟩
      · rw [hsame]
      · exact ⟨fun heq ↦ absurd (heq ▸ hnumbered') hplain, fun heq ↦ absurd (heq ▸ hnumbered) hplain⟩
    rw [Function.comp_apply, Function.comp_apply, apply_ite (Item.rename ρ)]
    exact if_congr hiff rfl rfl
  · obtain ⟨x, hx, huri⟩ := hmem y hy
    rw [← huri]
    exact h.linked_eq x hx
  · obtain ⟨x, hx, hxy⟩ := hmem y hy
    obtain ⟨x', hx', hxz⟩ := hmem z hz
    rw [← hxy, ← hxz] at heq ⊢
    exact h.injective x hx x' hx' heq
  · obtain ⟨x, hx, huri⟩ := hmem y hy
    rw [← huri]
    exact h.fixed x hx

/-- A source is put at the same place, and has the same URI. -/
theorem ensured (hR : R.Closed) (hR' : R'.Closed) (path : String) (hseat : (R.seat path).isSome) :
    ∃ ρ', Renamed ρ' (R.ensured path).2 (R'.ensured path).2 ∧ (R'.ensured path).1 = ρ' (R.ensured path).1 ∧
      (R.ensured path).1 ∈ (R.ensured path).2.uris := by
  rw [Roster.ensured, Roster.ensured, h.source?_eq, h.seat_eq]
  cases hsource : R.source? path with
  | some x => exact ⟨ρ, h, rfl, mem_uris (source?_mem hsource)⟩
  | none =>
    obtain ⟨uri, huri⟩ := Option.isSome_iff_exists.mp hseat
    obtain ⟨⟨n, hn⟩, -⟩ := seatFrom_eq_some huri
    have hplain : ¬IsNumbered uri := hn ▸ not_isNumbered_sourceUri path n
    have hitem := h.item?_plain hplain
    simp only [Option.map_none, Option.elim_none, huri, Option.elim_some]
    cases hfound : R.item? uri with
    | none =>
      rw [hfound, Option.map_none] at hitem
      have hnew : (Item.ofPath uri path).uri ∉ R.uris := fun hmem ↦ by
        rw [← isSome_item?, Item.ofPath, hfound] at hmem
        exact Bool.noConfusion hmem
      have hnew' : uri ∉ R'.uris := fun hmem ↦ by
        rw [← isSome_item?, hitem] at hmem
        exact Bool.noConfusion hmem
      have hseated : R.seated uri path = R.withItem (.ofPath uri path) := by
        rw [seated, hfound]
        rfl
      have hseated' : R'.seated uri path = R'.withItem (.ofPath uri path) := by
        rw [seated, hitem]
        rfl
      rw [hseated, hseated']
      refine ⟨_, h.withItem hR hR' hnew hnew' (.inl rfl), (Function.update_self uri uri ρ).symm, ?_⟩
      rw [uris_withItem]
      exact List.mem_append_right _ (List.mem_singleton_self _)
    | some x =>
      rw [hfound, Option.map_some] at hitem
      obtain ⟨hx, hxuri⟩ := item?_eq_some hfound
      have hseated : R.seated uri path = R.tagged uri path := by
        rw [seated, hfound]
        rfl
      have hseated' : R'.seated uri path = R'.tagged uri path := by
        rw [seated, hitem]
        rfl
      rw [hseated, hseated', uris_tagged]
      refine ⟨ρ, h.tagged hplain path, ?_, hxuri ▸ mem_uris hx⟩
      rcases h.fixed x hx with hsame | ⟨hnumbered, -⟩
      · rw [← hxuri, hsame]
      · exact absurd (hxuri ▸ hnumbered) hplain

/-- One more link between items. -/
theorem link {uri target : Uri} (htarget : target ∈ R.uris) :
    Renamed ρ (R.link uri target) (R'.link (ρ uri) (ρ target)) := by
  obtain ⟨x, hx, rfl⟩ := List.mem_map.mp htarget
  refine ⟨h.items_eq, fun y hy ↦ ?_, h.injective, h.fixed⟩
  by_cases heq : y.uri = x.uri
  · rw [heq]
    simp only [Roster.link, Function.update_self, h.linked_eq x hx, List.map_append, List.map_singleton]
  · have hne : ρ y.uri ≠ ρ x.uri := fun heq' ↦ heq (h.injective y hy x hx heq')
    simp only [Roster.link, Function.update_of_ne heq, Function.update_of_ne hne, h.linked_eq y hy]

/-- A new breakpoint may have another URI. -/
theorem inserted (hR : R.Closed) (hR' : R'.Closed) (l : Location) (hseat : (R.seat l.path).isSome)
    {fresh fresh' : Uri} (hfresh : fresh ∉ (R.ensured l.path).2.uris) (hfresh' : fresh' ∉ (R'.ensured l.path).2.uris)
    (hnumbered : IsNumbered fresh) (hnumbered' : IsNumbered fresh') :
    ∃ ρ', Renamed ρ' (R.inserted fresh l) (R'.inserted fresh' l) := by
  obtain ⟨ρ₁, h₁, hsource, hmem⟩ := h.ensured hR hR' l.path hseat
  have hclosed := hR.ensured l.path
  have h₂ := h₁.withItem hclosed (hR'.ensured l.path) (x := .ofLocation fresh l) hfresh hfresh'
    (.inr ⟨hnumbered, hnumbered'⟩)
  have hmem₂ : (R.ensured l.path).1 ∈ ((R.ensured l.path).2.withItem (.ofLocation fresh l)).uris := by
    rw [uris_withItem]
    exact List.mem_append_left _ hmem
  have h₃ : Renamed _ (Roster.link _ fresh _) _ := h₂.link hmem₂
  have hself : Function.update ρ₁ (Item.ofLocation fresh l).uri fresh' fresh = fresh' := Function.update_self ..
  have hother : Function.update ρ₁ (Item.ofLocation fresh l).uri fresh' (R.ensured l.path).1 =
      (R'.ensured l.path).1 := by
    exact (Function.update_of_ne (ne_of_mem_of_not_mem hmem hfresh) _ _).trans hsource.symm
  rw [hself, hother] at h₃
  exact ⟨_, h₃⟩

theorem without {x : Item} (hx : x ∈ R.items) (hR : R.Closed) : Renamed ρ (R.without x.uri) (R'.without (ρ x.uri)) := by
  have hiff : ∀ uri ∈ R.uris, ρ uri = ρ x.uri ↔ uri = x.uri := fun uri huri ↦ by
    obtain ⟨y, hy, rfl⟩ := List.mem_map.mp huri
    exact ⟨h.injective y hy x hx, fun heq ↦ congrArg ρ heq⟩
  have hmem : ∀ y ∈ (R.without x.uri).items, y ∈ R.items := fun y hy ↦ (List.mem_filter.mp hy).1
  refine ⟨?_, fun y hy ↦ ?_, fun y hy z hz ↦ h.injective y (hmem y hy) z (hmem z hz), fun y hy ↦
    h.fixed y (hmem y hy)⟩
  · rw [Roster.without, h.items_eq, List.filter_map]
    refine congrArg (List.map (Item.rename ρ)) (List.filter_congr fun y hy ↦ ?_)
    exact decide_eq_decide.mpr (not_congr (hiff y.uri (mem_uris hy)))
  · have hy' := hmem y hy
    simp only [Roster.without, hiff y.uri (mem_uris hy')]
    split
    · rfl
    · rw [h.linked_eq y hy', List.filter_map]
      congr 1
      exact List.filter_congr fun uri huri ↦
        decide_eq_decide.mpr (not_congr (hiff uri (hR.linked_mem y.uri uri huri)))

/-- A toggle does the same on both sides, whatever URIs it gives to a new breakpoint. -/
theorem toggled (hR : R.Closed) (hR' : R'.Closed) (l : Location) {fresh fresh' : Uri}
    (hnew : R.meant l = none → (R.seat l.path).isSome ∧ IsNumbered fresh ∧ fresh ∉ (R.ensured l.path).2.uris)
    (hnew' : R'.meant l = none → IsNumbered fresh' ∧ fresh' ∉ (R'.ensured l.path).2.uris) :
    ∃ ρ', Renamed ρ' (R.toggled fresh l) (R'.toggled fresh' l) := by
  have hmeant := h.meant_eq hR l
  rw [Roster.toggled, Roster.toggled, hmeant]
  cases hfound : R.meant l with
  | none =>
    rw [hfound, Option.map_none] at hmeant
    obtain ⟨hseat, hnumbered, hfresh⟩ := hnew hfound
    obtain ⟨hnumbered', hfresh'⟩ := hnew' hmeant
    exact h.inserted hR hR' l hseat hfresh hfresh' hnumbered hnumbered'
  | some x => exact ⟨ρ, h.without (meant_mem hfound) hR⟩

end Renamed

end LiveGraph.Breakpoint
