import Aiwatcher.Datasets.Pipeline
import Aiwatcher.Library.Table
import Mathlib.Data.List.Perm.Subperm

/-!
# Aiwatcher.Datasets.Chain

What an accepted canvas is: `orderOf` answers with a chain exactly if the connections lead down
it, from each block to the next, and nowhere else (`orderOf_iff_path`).
-/

namespace Aiwatcher.Datasets

open Library List Std

variable {addressing : Addressing} {canvas : Canvas} {blocks chain : List PipelineBlock}
  {edges : List PipelineEdge}

/-! ## Paths -/

/-- The connections of a path: from each block to the next. -/
def linksFrom : PipelineBlock → List PipelineBlock → List PipelineEdge
  | _, [] => []
  | a, b :: rest => ⟨a.id, b.id⟩ :: linksFrom b rest

def links : List PipelineBlock → List PipelineEdge
  | [] => []
  | head :: rest => linksFrom head rest

theorem fromId_linksFrom (a : PipelineBlock) (rest : List PipelineBlock) :
    (linksFrom a rest).map (·.fromId) = ((a :: rest).map (·.id)).dropLast := by
  induction rest generalizing a with
  | nil => rfl
  | cons b rest ih => simpa [linksFrom] using ih b

theorem toId_linksFrom (a : PipelineBlock) (rest : List PipelineBlock) :
    (linksFrom a rest).map (·.toId) = rest.map (·.id) := by
  induction rest generalizing a with
  | nil => rfl
  | cons b rest ih => simpa [linksFrom] using ih b

theorem ne_of_mem_linksFrom {a : PipelineBlock} {rest : List PipelineBlock}
    (h : ((a :: rest).map (·.id)).Nodup) {edge : PipelineEdge} (hmem : edge ∈ linksFrom a rest) :
    edge.fromId ≠ edge.toId := by
  induction rest generalizing a with
  | nil => cases hmem
  | cons b rest ih =>
    obtain ⟨hnew, hrest⟩ := nodup_cons.mp h
    obtain rfl | hmem := mem_cons.mp hmem
    · exact fun heq => hnew (mem_cons.mpr (.inl heq))
    · exact ih hrest hmem

/-- A path that goes on. -/
theorem linksFrom_append (a b : PipelineBlock) (rest more : List PipelineBlock) :
    linksFrom a (rest ++ b :: more) =
      linksFrom a rest ++ ⟨((a :: rest).getLast (by simp)).id, b.id⟩ :: linksFrom b more := by
  induction rest generalizing a with
  | nil => rfl
  | cons c rest ih => simp [linksFrom, ih c]

/-! ## Reading a canvas -/

/-- A block that is a block by itself. -/
def Sound (addressing : Addressing) (block : PipelineBlock) : Prop :=
  isBlockId block.id = true ∧ blockProblems addressing block = []

/-- Connections between two blocks each, out of no block twice and into none twice. -/
structure Plain (blocks : List PipelineBlock) (edges : List PipelineEdge) : Prop where
  between : ∀ edge ∈ edges, edge.fromId ∈ blocks.map (·.id) ∧ edge.toId ∈ blocks.map (·.id) ∧
    edge.fromId ≠ edge.toId
  out : (edges.map (·.fromId)).Nodup
  into : (edges.map (·.toId)).Nodup

namespace Canvas

/-- What a canvas without a complaint holds of the blocks and the connections that were read. -/
structure Shows (canvas : Canvas) (blocks : List PipelineBlock) (edges : List PipelineEdge) :
    Prop where
  known : ∀ (id : String) (block : PipelineBlock),
    canvas.known[id]? = some block ↔ block ∈ blocks ∧ block.id = id
  size : canvas.known.size = blocks.length
  next : ∀ f t : String, canvas.next[f]? = some t ↔ ⟨f, t⟩ ∈ edges
  fed : ∀ t : String, canvas.hasParent.contains t = true ↔ t ∈ edges.map (·.toId)

theorem Shows.contains (h : canvas.Shows blocks edges) (id : String) :
    canvas.known.contains id = true ↔ id ∈ blocks.map (·.id) := by
  rw [← ExtTreeMap.isSome_getElem?_eq_contains, Option.isSome_iff_exists, mem_map]
  exact exists_congr fun block => h.known id block

theorem Shows.feeds (h : canvas.Shows blocks edges) (f : String) :
    canvas.next.contains f = true ↔ f ∈ edges.map (·.fromId) := by
  rw [← ExtTreeMap.isSome_getElem?_eq_contains, Option.isSome_iff_exists, mem_map]
  constructor
  · exact fun ⟨t, ht⟩ => ⟨⟨f, t⟩, (h.next f t).mp ht, rfl⟩
  · rintro ⟨⟨_, t⟩, hmem, rfl⟩
    exact ⟨t, (h.next _ t).mpr hmem⟩

theorem addBlock_problems {block : PipelineBlock} :
    (canvas.addBlock addressing block).problems = [] ↔ canvas.problems = [] ∧
      Sound addressing block ∧ canvas.known.contains block.id = false := by
  unfold addBlock Sound
  split
  · simp_all [tell]
  · cases hknown : canvas.known.contains block.id <;> simp_all

/-- **The blocks** are read without a complaint exactly if each is sound and has an id of its
own. -/
theorem readBlocks (many : List String) (blocks : List PipelineBlock) :
    let canvas := blocks.foldl (addBlock addressing) (new many)
    (canvas.problems = [] ↔ many = [] ∧ (∀ block ∈ blocks, Sound addressing block) ∧
      (blocks.map (·.id)).Nodup) ∧ (canvas.problems = [] → canvas.Shows blocks []) := by
  induction blocks using List.reverseRecOn with
  | nil =>
    refine ⟨by simp [new], fun _ => ⟨?_, ?_, ?_, ?_⟩⟩ <;> simp [new]
  | append_singleton blocks block ih =>
    dsimp only at ih ⊢
    rw [foldl_append, foldl_cons, foldl_nil, addBlock_problems, ih.1]
    generalize blocks.foldl (addBlock addressing) (new many) = canvas at ih
    by_cases hread : canvas.problems = []
    · have hshows := ih.2 hread
      have hfresh : canvas.known.contains block.id = false ↔ block.id ∉ blocks.map (·.id) := by
        rw [← hshows.contains, Bool.not_eq_true]
      refine ⟨?_, fun ⟨_, hsound, hnew⟩ => ?_⟩
      · rw [hfresh]
        simp only [mem_append, mem_singleton, map_append, map_cons, map_nil, nodup_append]
        grind
      · have hold : ∀ other ∈ blocks, other.id ≠ block.id := by simpa using hfresh.mp hnew
        unfold addBlock
        rw [if_neg (by simp [hsound.1])]
        refine ⟨fun id found => ?_, ?_, hshows.next, hshows.fed⟩
        · rw [Table.getElem?_insert]
          split <;> grind [hshows.known id found]
        · simp [ExtTreeMap.size_insert, hnew, hshows.size]
    · have hrefused : ¬ (many = [] ∧ (∀ block ∈ blocks, Sound addressing block) ∧
          (blocks.map (·.id)).Nodup) := fun h => hread (ih.1.mpr h)
      refine ⟨⟨fun h => absurd h.1 hrefused, fun h => absurd ⟨h.1, ?_, ?_⟩ hrefused⟩,
        fun h => absurd h.1 hrefused⟩
      · exact fun b hb => h.2.1 b (mem_append_left _ hb)
      · exact (h.2.2.sublist (by simp))

theorem addEdge_problems {edge : PipelineEdge} : (canvas.addEdge edge).problems = [] ↔
    canvas.problems = [] ∧ canvas.known.contains edge.fromId = true ∧
      canvas.known.contains edge.toId = true ∧ edge.fromId ≠ edge.toId ∧
      canvas.next.contains edge.fromId = false ∧ canvas.hasParent.contains edge.toId = false := by
  unfold addEdge
  split
  · simp_all [tell]
    grind
  · split
    · simp_all [tell]
    · cases canvas.next.contains edge.fromId <;> cases canvas.hasParent.contains edge.toId <;>
        simp_all

theorem problems_of_edges (h : (edges.foldl addEdge canvas).problems = []) :
    canvas.problems = [] := by
  induction edges generalizing canvas with
  | nil => exact h
  | cons edge edges ih => exact (addEdge_problems.mp (ih h)).1

/-- **The connections** are read without a complaint exactly if they are plain. -/
theorem readEdges (h : canvas.Shows blocks []) (edges : List PipelineEdge) :
    let after := edges.foldl addEdge canvas
    (after.problems = [] ↔ canvas.problems = [] ∧ Plain blocks edges) ∧
      (after.problems = [] → after.Shows blocks edges) := by
  induction edges using List.reverseRecOn with
  | nil => exact ⟨⟨fun hnil => ⟨hnil, by simp, by simp, by simp⟩, And.left⟩, fun _ => h⟩
  | append_singleton edges edge ih =>
    dsimp only at ih ⊢
    rw [foldl_append, foldl_cons, foldl_nil, addEdge_problems, ih.1]
    generalize edges.foldl addEdge canvas = after at ih
    by_cases hread : after.problems = []
    · have hshows := ih.2 hread
      have hplain := (ih.1.mp hread).2
      refine ⟨?_, fun ⟨_, hfrom, hto, hne, hout, hin⟩ => ?_⟩
      · rw [hshows.contains, hshows.contains, ← Bool.not_eq_true, ← Bool.not_eq_true,
          hshows.feeds, hshows.fed]
        constructor
        · rintro ⟨⟨hbefore, -⟩, hfrom, hto, hne, hout, hin⟩
          refine ⟨hbefore, ?_, ?_, ?_⟩
          · simp only [mem_append, mem_singleton]
            grind [hplain.between]
          · simpa [nodup_append, hplain.out] using hout
          · simpa [nodup_append, hplain.into] using hin
        · rintro ⟨hbefore, hbetween, hout, hinto⟩
          have hedge := hbetween edge (by simp)
          simp only [map_append, map_cons, map_nil] at hout hinto
          exact ⟨⟨hbefore, hplain⟩, hedge.1, hedge.2.1, hedge.2.2,
            fun hmem => (nodup_append.mp hout).2.2 _ hmem _ mem_cons_self rfl,
            fun hmem => (nodup_append.mp hinto).2.2 _ hmem _ mem_cons_self rfl⟩
      · have hadded : after.addEdge edge = { after with
            next := after.next.insert edge.fromId edge.toId
            hasParent := after.hasParent.insert edge.toId ()
            problems := (after.addEdge edge).problems } := by
          simp [addEdge, hfrom, hto, hne]
        rw [hadded]
        refine ⟨hshows.known, hshows.size, fun f t => ?_, fun t => ?_⟩
        · have hnone : ∀ u, ⟨edge.fromId, u⟩ ∉ edges := fun u hmem => by
            rw [← Bool.not_eq_true, hshows.feeds] at hout
            exact hout (mem_map.mpr ⟨_, hmem, rfl⟩)
          rw [Table.getElem?_insert]
          cases edge
          split <;> grind [hshows.next f t]
        · simp only [ExtTreeMap.contains_insert, Bool.or_eq_true, hshows.fed, beq_iff_eq,
            Std.LawfulEqOrd.compare_eq_iff_eq, map_append, mem_append, map_cons,
            map_nil, mem_singleton]
          grind
    · have hrefused : ¬ (canvas.problems = [] ∧ Plain blocks edges) := fun h => hread (ih.1.mpr h)
      refine ⟨⟨fun h => absurd h.1 hrefused, fun h => absurd ⟨h.1, ?_, ?_, ?_⟩ hrefused⟩,
        fun h => absurd h.1 hrefused⟩
      · exact fun e he => h.2.between e (mem_append_left _ he)
      · exact h.2.out.sublist (by simp)
      · exact h.2.into.sublist (by simp)

/-! ## The walk -/

theorem Shows.mem_heads (h : canvas.Shows blocks edges) {block : PipelineBlock} :
    block ∈ canvas.heads ↔ block ∈ blocks ∧ block.id ∉ edges.map (·.toId) := by
  have hknown : (∃ id : String, canvas.known[id]? = some block) ↔ block ∈ blocks := by
    simp [h.known]
  rw [heads, mem_filter, BTreeMap.mem_values, hknown, ← h.fed, Bool.not_eq_eq_eq_not,
    Bool.not_true, Bool.not_eq_true]

theorem Shows.nodup_heads (h : canvas.Shows blocks edges) : canvas.heads.Nodup := by
  refine List.Nodup.filter _ (List.Nodup.of_map (·.id) ?_)
  have hkeys : (BTreeMap.values canvas.known).map (·.id) = canvas.known.keys := by
    rw [BTreeMap.values, List.map_map, ← ExtTreeMap.map_fst_toList_eq_keys]
    refine map_congr_left fun entry hentry => ?_
    exact ((h.known _ _).mp (ExtTreeMap.mem_toList_iff_getElem?_eq_some.mp hentry)).2
  rw [hkeys]
  exact ExtTreeMap.nodup_keys

/-- A walk follows connections, and meets no block twice. -/
theorem Shows.walk_follows (h : canvas.Shows blocks edges) (fuel : Nat) {a : PipelineBlock}
    {rest : List PipelineBlock} (hlinks : linksFrom a rest ⊆ edges) (hblocks : a :: rest ⊆ blocks)
    (hnodup : ((a :: rest).map (·.id)).Nodup) :
    ∃ rest', canvas.walk fuel canvas.next[((a :: rest).getLast (by simp)).id]? (a :: rest) =
        a :: rest' ∧ linksFrom a rest' ⊆ edges ∧ a :: rest' ⊆ blocks ∧
      ((a :: rest').map (·.id)).Nodup := by
  induction fuel generalizing rest with
  | zero => exact ⟨rest, rfl, hlinks, hblocks, hnodup⟩
  | succ fuel ih =>
    cases hcursor : canvas.next[((a :: rest).getLast (by simp)).id]? with
    | none => exact ⟨rest, rfl, hlinks, hblocks, hnodup⟩
    | some id =>
      rw [walk]
      split
      · exact ⟨rest, rfl, hlinks, hblocks, hnodup⟩
      · rename_i hmet
        split
        · exact ⟨rest, rfl, hlinks, hblocks, hnodup⟩
        · rename_i block hblock
          obtain ⟨hmem, rfl⟩ := (h.known id block).mp hblock
          have hlast : ((a :: (rest ++ [block])).getLast (by simp)).id = block.id := by simp
          have hnext := @ih (rest ++ [block]) ?_ ?_ ?_
          · rw [hlast] at hnext
            exact hnext
          · rw [linksFrom_append]
            have hedge := (h.next _ _).mp hcursor
            simp_all [linksFrom]
          · simp_all
          · rw [← cons_append, map_append, nodup_append]
            refine ⟨hnodup, by simp, ?_⟩
            simp only [any_eq_true, beq_iff_eq, not_exists, not_and] at hmet
            simp only [map_cons, map_nil, mem_singleton]
            grind

/-- Along a path that is all of the connections a walk goes to its end. -/
theorem Shows.walk_path (h : canvas.Shows blocks edges) {a : PipelineBlock}
    {rest post : List PipelineBlock} {fuel : Nat} (hfuel : post.length < fuel)
    (hedges : edges.Perm (linksFrom a (rest ++ post))) (hblocks : a :: (rest ++ post) ⊆ blocks)
    (hnodup : ((a :: (rest ++ post)).map (·.id)).Nodup) :
    canvas.walk fuel canvas.next[((a :: rest).getLast (by simp)).id]? (a :: rest) =
      a :: (rest ++ post) := by
  induction post generalizing rest fuel with
  | nil =>
    have hnone : canvas.next[((a :: rest).getLast (by simp)).id]? = none := by
      refine Option.eq_none_iff_forall_ne_some.mpr fun t ht => ?_
      have hmem := mem_map_of_mem (f := PipelineEdge.fromId)
        (hedges.mem_iff.mp ((h.next _ _).mp ht))
      rw [fromId_linksFrom, append_nil, ← map_dropLast] at hmem
      rw [append_nil, ← dropLast_append_getLast (cons_ne_nil a rest), map_append] at hnodup
      exact (nodup_append.mp hnodup).2.2 _ hmem _ mem_cons_self rfl
    rw [hnone, append_nil]
    cases fuel <;> rfl
  | cons b post ih =>
    obtain ⟨fuel, rfl⟩ : ∃ n, fuel = n + 1 := ⟨fuel - 1, by simp at hfuel; omega⟩
    have hnext : canvas.next[((a :: rest).getLast (by simp)).id]? = some b.id := by
      rw [h.next, hedges.mem_iff, linksFrom_append]
      simp
    have hb : canvas.known[b.id]? = some b := (h.known _ _).mpr ⟨hblocks (by simp), rfl⟩
    have hnew : ((a :: rest).any fun block => block.id == b.id) = false := by
      rw [← cons_append, map_append, nodup_append] at hnodup
      simp only [any_eq_false, beq_iff_eq]
      intro other hother heq
      exact hnodup.2.2 _ (mem_map_of_mem hother) _ mem_cons_self heq
    have hrest := @ih (rest ++ [b]) fuel (by simpa using hfuel) (by simpa using hedges)
      (by simpa using hblocks) (by simpa using hnodup)
    rw [hnext, walk, if_neg (by simp [hnew]), hb]
    simpa using hrest

/-- **The one head and the walk from it**, where they cover the canvas, are a path that is all of
the connections. -/
theorem Shows.path_iff (h : canvas.Shows blocks edges) (hnodup : (blocks.map (·.id)).Nodup)
    (hplain : Plain blocks edges) :
    canvas.heads.length = 1 ∧
        canvas.walk (canvas.known.size + 1) (canvas.heads.head?.map (·.id)) [] = chain ∧
        chain.length = canvas.known.size ↔
      chain ≠ [] ∧ chain.Perm blocks ∧ edges.Perm (links chain) := by
  constructor
  · rintro ⟨hone, hwalk, hlength⟩
    obtain ⟨a, ha⟩ := length_eq_one_iff.mp hone
    obtain ⟨hmem, hfree⟩ := h.mem_heads.mp (ha ▸ mem_singleton_self a)
    have hfirst : canvas.walk (canvas.known.size + 1) (some a.id) [] =
        canvas.walk canvas.known.size canvas.next[a.id]? [a] := by
      rw [walk, if_neg (by simp), (h.known a.id a).mpr ⟨hmem, rfl⟩]
      rfl
    obtain ⟨rest, hrest, hlinks, hsub, hids⟩ :=
      @Shows.walk_follows _ _ _ h canvas.known.size a [] (by simp [linksFrom]) (by simpa) (by simp)
    rw [ha] at hwalk
    obtain rfl := hwalk.symm.trans (hfirst.trans hrest)
    have hperm := (List.Nodup.subperm (List.Nodup.of_map _ hids) hsub).perm_of_length_le
      (by rw [hlength, h.size])
    refine ⟨by simp, hperm, ((List.Nodup.subperm ?_ hlinks).perm_of_length_le ?_).symm⟩
    · refine List.Nodup.of_map PipelineEdge.toId ?_
      rw [toId_linksFrom]
      exact (nodup_cons.mp hids).2
    · -- every connection leads to a block behind the head, and no two to the same one
      have hinto : edges.map (·.toId) ⊆ rest.map (·.id) := by
        intro t ht
        obtain ⟨edge, hedge, rfl⟩ := mem_map.mp ht
        have hon := (hperm.map (·.id)).mem_iff.mpr (hplain.between edge hedge).2.1
        exact (mem_cons.mp hon).resolve_left fun heq : edge.toId = a.id => hfree (heq ▸ ht)
      have hle := (List.Nodup.subperm hplain.into hinto).length_le
      simpa [← toId_linksFrom a rest] using hle
  · rintro ⟨hne, hperm, hedges⟩
    cases chain with
    | nil => exact absurd rfl hne
    | cons a rest =>
      have hids := ((hperm.map (·.id)).nodup_iff).mpr hnodup
      have hinto : ∀ t, t ∈ edges.map (·.toId) ↔ t ∈ rest.map (·.id) := fun t => by
        rw [(hedges.map (·.toId)).mem_iff, links, toId_linksFrom]
      have hheads : canvas.heads = [a] := by
        refine (perm_singleton.mp ((perm_ext_iff_of_nodup h.nodup_heads
          (nodup_singleton a)).mpr fun block => ?_))
        rw [h.mem_heads, hinto, ← hperm.mem_iff, mem_singleton, mem_cons]
        have hnew := (nodup_cons.mp hids).1
        constructor
        · rintro ⟨rfl | hmem, hnot⟩
          · rfl
          · exact absurd (mem_map_of_mem hmem) hnot
        · rintro rfl
          exact ⟨.inl rfl, hnew⟩
      have hwalk := @Shows.walk_path _ _ _ h a [] rest canvas.known.size
        (by rw [h.size, ← hperm.length_eq]; simp) hedges hperm.subset hids
      rw [hheads, head?_cons, Option.map_some, walk, if_neg (by simp),
        (h.known a.id a).mpr ⟨hperm.subset mem_cons_self, rfl⟩]
      exact ⟨rfl, hwalk, by rw [h.size, hperm.length_eq]⟩

end Canvas

/-! ## An accepted canvas -/

theorem plain_of_path (hnodup : (chain.map (·.id)).Nodup) (hperm : chain.Perm blocks)
    (hedges : edges.Perm (links chain)) : Plain blocks edges := by
  cases chain with
  | nil =>
    obtain rfl := perm_nil.mp hedges
    exact ⟨by simp, by simp, by simp⟩
  | cons a rest =>
    have hout := fromId_linksFrom a rest
    have hinto := toId_linksFrom a rest
    refine ⟨fun edge hedge => ?_, ?_, ?_⟩
    · have hlink := hedges.mem_iff.mp hedge
      have hfrom := mem_map_of_mem (f := PipelineEdge.fromId) hlink
      have hto := mem_map_of_mem (f := PipelineEdge.toId) hlink
      rw [links, hout] at hfrom
      rw [links, hinto] at hto
      rw [← (hperm.map (·.id)).mem_iff, ← (hperm.map (·.id)).mem_iff]
      exact ⟨dropLast_subset _ hfrom, mem_cons_of_mem _ hto, ne_of_mem_linksFrom hnodup hlink⟩
    · rw [(hedges.map (·.fromId)).nodup_iff, links, hout]
      exact hnodup.sublist (dropLast_sublist _)
    · rw [(hedges.map (·.toId)).nodup_iff, links, hinto]
      exact (nodup_cons.mp hnodup).2

/-- **What is drawn is a path.**  A canvas has a chain exactly if it has a block and no more than
it may, each of them sound by itself and under an id of its own, and its connections are those of
a path through all of the blocks that the rules for neighbours allow; and that path is the chain. -/
theorem orderOf_iff_path (addressing : Addressing) (blocks chain : List PipelineBlock)
    (edges : List PipelineEdge) :
    orderOf addressing blocks edges = .ok chain ↔
      (blocks ≠ [] ∧ blocks.length ≤ maxBlocks ∧ (∀ block ∈ blocks, Sound addressing block) ∧
        (blocks.map (·.id)).Nodup) ∧
      chain.Perm blocks ∧ edges.Perm (links chain) ∧ chainProblems chain = [] := by
  unfold orderOf
  by_cases hne : blocks = []
  · simp [hne]
  · rw [if_neg (by simpa using hne)]
    dsimp only
    generalize hmany : (ite (maxBlocks < blocks.length) _ _ : List String) = many
    have hfits : many = [] ↔ blocks.length ≤ maxBlocks := by
      rw [← hmany]
      split <;> simp <;> omega
    obtain ⟨hread, hshown⟩ := @Canvas.readBlocks addressing many blocks
    have hdrawn := fun h => @Canvas.readEdges _ _ (hshown h) edges
    have hclean := @Canvas.problems_of_edges
      (blocks.foldl (Canvas.addBlock addressing) (Canvas.new many)) edges
    generalize blocks.foldl (Canvas.addBlock addressing) (Canvas.new many) = canvas at *
    generalize edges.foldl Canvas.addEdge canvas = drawn at *
    trans drawn.problems = [] ∧ (drawn.heads.length = 1 ∧
      drawn.walk (drawn.known.size + 1) (drawn.heads.head?.map (·.id)) [] = chain ∧
        chain.length = drawn.known.size) ∧ chainProblems chain = []
    · generalize drawn.walk (drawn.known.size + 1) (drawn.heads.head?.map (·.id)) [] = walked
      by_cases hproblems : drawn.problems = []
      · by_cases hone : drawn.heads.length = 1
        · by_cases hall : walked.length = drawn.known.size
          · by_cases hrules : chainProblems walked = []
            · simp [hproblems, hone, hall, hrules]
              grind
            · simp [hproblems, hone, hall, hrules]
              grind
          · simp [hproblems, hone, hall]
            grind
        · simp [hproblems, hone]
      · simp [hproblems]
    · constructor
      · rintro ⟨hproblems, hwalk, hrules⟩
        have hblocks := hread.mp (hclean hproblems)
        have hplain := (hdrawn (hclean hproblems)).1.mp hproblems
        have hpath := (((hdrawn (hclean hproblems)).2 hproblems).path_iff hblocks.2.2
          hplain.2).mp hwalk
        exact ⟨⟨hne, hfits.mp hblocks.1, hblocks.2⟩, hpath.2.1, hpath.2.2, hrules⟩
      · rintro ⟨⟨-, hlength, hblocks⟩, hperm, hedges, hrules⟩
        have hread := hread.mpr ⟨hfits.mpr hlength, hblocks⟩
        have hplain := plain_of_path (((hperm.map (·.id)).nodup_iff).mpr hblocks.2) hperm hedges
        have hproblems := (hdrawn hread).1.mpr ⟨hread, hplain⟩
        refine ⟨hproblems, (((hdrawn hread).2 hproblems).path_iff hblocks.2 hplain).mpr
          ⟨?_, hperm, hedges⟩, hrules⟩
        rintro rfl
        exact hne hperm.nil_eq.symm

/-! ## The rules for neighbours -/

/-- A block behind which no query reads its rows. -/
def BlockSpec.seals : BlockSpec → Bool
  | .notebook .. | .approval .. => true
  | _ => false

def BlockSpec.isView : BlockSpec → Bool
  | .view _ => true
  | _ => false

/-- One source, in front; one engine; no transform behind a notebook or an approval; a view, if
there is one, at the end. -/
structure Ruled (chain : List PipelineBlock) : Prop where
  source : ∀ first rest, chain = first :: rest →
    first.spec.isSource = true ∧ ∀ block ∈ rest, block.spec.isSource = false
  engine : ∀ a ∈ chain, ∀ b ∈ chain, ∀ e e', a.spec.engine = some e → b.spec.engine = some e' →
    e = e'
  sealing : chain.Pairwise fun a b => a.spec.seals = true → b.spec.isTransform = false
  view : chain.Pairwise fun a _ => a.spec.isView = false

theorem seen_next (seen : Seen) (block : PipelineBlock) :
    (seen.next block).sealing.isSome = (block.spec.seals || seen.sealing.isSome) ∧
      (seen.next block).view.isSome = (block.spec.isView || seen.view.isSome) ∧
      ((seen.next block).problems = [] ↔ seen.problems = [] ∧
        (seen.sealing.isSome = true → block.spec.isTransform = false) ∧
        seen.view.isSome = false) := by
  cases hspec : block.spec <;> cases hsealing : seen.sealing <;> cases hview : seen.view <;>
    simp [Seen.next, hspec, hsealing, hview, BlockSpec.seals, BlockSpec.isView,
      BlockSpec.isTransform]

theorem problems_seen (seen : Seen) : (chain.foldl Seen.next seen).problems = [] ↔
    seen.problems = [] ∧
      (seen.sealing.isSome = true → ∀ block ∈ chain, block.spec.isTransform = false) ∧
      (seen.view.isSome = true → chain = []) ∧
      (chain.Pairwise fun a b => a.spec.seals = true → b.spec.isTransform = false) ∧
      chain.Pairwise fun a _ => a.spec.isView = false := by
  induction chain generalizing seen with
  | nil => simp
  | cons block chain ih =>
    obtain ⟨hsealing, hseen, hproblems⟩ := seen_next seen block
    rw [foldl_cons, ih, hsealing, hseen, hproblems]
    simp only [pairwise_cons, forall_mem_cons, Bool.or_eq_true, reduceCtorEq]
    cases chain with
    | nil => simp
    | cons head tail =>
      have hview : (∀ other ∈ head :: tail, block.spec.isView = false) ↔
          block.spec.isView = false :=
        ⟨fun h => h head mem_cons_self, fun h _ _ => h⟩
      rw [hview]
      cases block.spec.seals <;> cases seen.sealing.isSome <;> simp <;> tauto

theorem length_enginesOf : (enginesOf chain).length ≤ 1 ↔
    ∀ a ∈ chain, ∀ b ∈ chain, ∀ e e', a.spec.engine = some e → b.spec.engine = some e' →
      e = e' := by
  have hsome : ∀ e, (chain.find? fun block => block.spec.engine == some e).isSome = true ↔
      ∃ block ∈ chain, block.spec.engine = some e := by simp
  have hflow := hsome .flow
  have hfusion := hsome .dataFusion
  have hduck := hsome .duckDb
  unfold enginesOf QueryEngine.all
  cases h1 : chain.find? fun block => block.spec.engine == some QueryEngine.flow <;>
    cases h2 : chain.find? fun block => block.spec.engine == some QueryEngine.dataFusion <;>
    cases h3 : chain.find? fun block => block.spec.engine == some QueryEngine.duckDb <;>
    simp [h1, h2, h3] at hflow hfusion hduck ⊢
  all_goals grind [cases QueryEngine]

theorem ruled_iff : chainProblems chain = [] ↔ Ruled chain := by
  have hseen := @problems_seen chain ⟨none, none, []⟩
  have hone := @length_enginesOf chain
  unfold chainProblems
  simp only [append_eq_nil_iff, hseen, map_eq_nil_iff, filter_eq_nil_iff]
  constructor
  · rintro ⟨⟨⟨hfirst, hrest⟩, hengines⟩, -, -, -, hsealing, hview⟩
    refine ⟨fun first rest hchain => ?_, hone.mp ?_, hsealing, hview⟩
    · subst hchain
      simp_all
    · by_contra hmany
      simp [Nat.lt_of_not_le hmany] at hengines
  · intro h
    refine ⟨⟨⟨?_, ?_⟩, ?_⟩, trivial, nofun, nofun, h.sealing, h.view⟩
    · cases chain with
      | nil => rfl
      | cons first rest => simp [(h.source first rest rfl).1]
    · cases chain with
      | nil => simp
      | cons first rest => simpa using (h.source first rest rfl).2
    · rw [if_neg (by simpa using hone.mpr h.engine)]

theorem accepted_of_orderOf (h : orderOf addressing blocks edges = .ok chain) :
    chain.Perm blocks ∧ (chain.map (·.id)).Nodup := by
  obtain ⟨⟨-, -, -, hnodup⟩, hperm, -⟩ := (orderOf_iff_path addressing blocks chain edges).mp h
  exact ⟨hperm, ((hperm.map (·.id)).nodup_iff).mpr hnodup⟩

/-- **What is drawn is a ruled path.**  A canvas has a chain exactly if it has a block and no more
than it may, each sound by itself and under an id of its own, and its connections are those of a
path through all of the blocks that keeps the rules for neighbours; and that path is the chain.
Of any other canvas something is said. -/
theorem orderOf_iff_ruled_path (addressing : Addressing) (blocks chain : List PipelineBlock)
    (edges : List PipelineEdge) :
    (orderOf addressing blocks edges = .ok chain ↔
      (blocks ≠ [] ∧ blocks.length ≤ maxBlocks ∧ (∀ block ∈ blocks, Sound addressing block) ∧
        (blocks.map (·.id)).Nodup) ∧
      chain.Perm blocks ∧ edges.Perm (links chain) ∧ Ruled chain) ∧
    orderOf addressing blocks edges ≠ .error [] := by
  rw [orderOf_iff_path, ruled_iff]
  refine ⟨Iff.rfl, ?_⟩
  unfold orderOf
  split
  · simp
  · dsimp only
    generalize edges.foldl Canvas.addEdge _ = drawn
    generalize (ite ((drawn.heads.length ≠ 1 && _) = true) _ _ : List String) = unheaded
    split
    · simp_all
    · split
      · simp
      · split <;> simp_all

/-- One source is a ruled path, under any id; a canvas takes it under a block's id only. -/
theorem orderOf_refuses_an_id :
    Ruled [⟨"A", "", ⟨0, 0⟩, .source "rows" ∅⟩] ∧
      links [⟨"A", "", ⟨0, 0⟩, .source "rows" ∅⟩] = [] ∧
      orderOf ⟨fun _ => [], id⟩ [⟨"A", "", ⟨0, 0⟩, .source "rows" ∅⟩] [] ≠
        .ok [⟨"A", "", ⟨0, 0⟩, .source "rows" ∅⟩] := by
  refine ⟨⟨by simp [BlockSpec.isSource], by simp [BlockSpec.engine], by simp, by simp⟩, rfl,
    fun h => ?_⟩
  have hsound := ((orderOf_iff_path _ _ _ _).mp h).1.2.2.1 _ List.mem_cons_self
  exact absurd hsound.1 (by decide)

end Aiwatcher.Datasets
