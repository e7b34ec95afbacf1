import BackusNaur.Proofs.Matching.Evaluation

/-!
# The search computes the evaluation

`Evaluates.finds`: a search finds the derivation that needs no more frames and levels than are left.
`settles_node`: in a closed table a search without such a derivation fails. It runs out of frames,
or it ends with the note that it met the bound. What it chooses after that note rests on an end that
was made up, but nothing takes the note back.
-/

namespace BackusNaur

variable {table : SymbolTable} {tokens : List String} {phrase : Phrase} {frames levels : Nat}

namespace Search

variable {search : Search (Option Nat)} {next : Option Nat → Search (Option Nat)}

-- ---------------------------------------------------------------------------
-- Searches that find something
-- ---------------------------------------------------------------------------

/-- The search ends here and adds these spans, and nothing else, to what was noted before. -/
def Finds (search : Search (Option Nat)) (stop : Option Nat) (recorded : Set Span) : Prop :=
  ∀ notes, ∃ spans, search.run notes = .ok (stop, { notes with spans }) ∧
    spanSet spans = recorded ∪ spanSet notes.spans

theorem Finds.pure : Finds (pure stop) stop ∅ :=
  fun notes => ⟨notes.spans, rfl, (Set.empty_union _).symm⟩

theorem Finds.bind (hfirst : search.Finds stop s) (hnext : (next stop).Finds reached t) :
    (search >>= next).Finds reached (s ∪ t) := by
  intro notes
  obtain ⟨spans, hrun, hspans⟩ := hfirst notes
  obtain ⟨later, hrun', hlater⟩ := hnext { notes with spans }
  refine ⟨later, ?_, ?_⟩
  · rw [StateT.run_bind, hrun]
    exact hrun'
  · rw [hlater, hspans, ← Set.union_assoc, Set.union_comm t]

theorem Finds.bind_pure (h : search.Finds stop s) (hnext : next stop = Pure.pure reached) :
    (search >>= next).Finds reached s := by
  have hpure : (next stop).Finds reached ∅ := hnext ▸ .pure
  simpa using h.bind hpure

theorem Finds.record (h : search.Finds stop s) :
    (do Search.record span; search).Finds stop (insert span s) := by
  intro notes
  obtain ⟨spans, hrun, hspans⟩ := h { notes with spans := span :: notes.spans }
  refine ⟨spans, hrun, ?_⟩
  rw [hspans, spanSet_cons, Set.union_insert, Set.insert_union]

theorem Finds.group (h : (items visit folded row pos).Finds reached s) :
    (segment visit folded (.group row mark) pos).Finds (some (reached.getD pos)) s :=
  h.bind_pure rfl

-- ---------------------------------------------------------------------------
-- Searches that fail
-- ---------------------------------------------------------------------------

/-- The search runs out of frames, or it ends with the note that it met the bound. -/
def FailsAt (search : Search (Option Nat)) (notes : Notes) : Prop :=
  search.run notes = .error .noFrame ∨
    ∃ stop spans, search.run notes = .ok (stop, ⟨spans, true⟩)

def Fails (search : Search (Option Nat)) : Prop := ∀ notes, search.FailsAt notes

/-- The search does not take back that the bound was met. -/
def Keeps (search : Search (Option Nat)) : Prop := ∀ spans, search.FailsAt ⟨spans, true⟩

theorem Fails.keeps (h : search.Fails) : search.Keeps := fun _ => h _

theorem Finds.keeps (h : search.Finds stop s) : search.Keeps := by
  intro spans
  obtain ⟨spans', hrun, -⟩ := h ⟨spans, true⟩
  exact .inr ⟨stop, spans', hrun⟩

theorem Keeps.record (h : search.Keeps) : (do Search.record span; search).Keeps :=
  fun spans => h (span :: spans)

theorem fails_noFrame : Fails (throw .noFrame) := fun _ => .inl rfl

theorem fails_giveUp : Fails giveUp := fun notes => .inr ⟨none, notes.spans, rfl⟩

theorem Fails.record (h : search.Fails) : (do Search.record span; search).Fails := fun _ => h _

theorem FailsAt.bind (h : search.FailsAt notes) (hk : ∀ stop, (next stop).Keeps) :
    (search >>= next).FailsAt notes := by
  rw [FailsAt, StateT.run_bind]
  rcases h with hrun | ⟨stop, spans, hrun⟩
  · exact .inl (by rw [hrun]; rfl)
  · rw [hrun]
    exact hk stop spans

theorem Fails.bind (h : search.Fails) (hk : ∀ stop, (next stop).Keeps) :
    (search >>= next).Fails := fun notes => (h notes).bind hk

theorem Fails.bind_some {next : Nat → Search (Option Nat)} (h : search.Fails)
    (hk : ∀ stop, (next stop).Keeps) :
    Fails (do
      let some stop ← search | return none
      next stop) := by
  refine h.bind ?_
  rintro (_ | stop)
  · exact Finds.pure.keeps
  · exact hk stop

theorem Fails.group (h : (items visit folded row pos).Fails) :
    (segment visit folded (.group row mark) pos).Fails := h.bind fun _ => Finds.pure.keeps

theorem Finds.bind_fails (hfirst : search.Finds stop s) (hnext : (next stop).Fails) :
    (search >>= next).Fails := by
  intro notes
  obtain ⟨spans, hrun, -⟩ := hfirst notes
  rw [FailsAt, StateT.run_bind, hrun]
  exact hnext _

end Search

-- ---------------------------------------------------------------------------
-- A derivation that fits is found
-- ---------------------------------------------------------------------------

/-- The search for a phrase whose node has so many frames and levels below it. -/
def Phrase.search (table : SymbolTable) (folded : List String) (frames levels : Nat) :
    Phrase → Nat → Search (Option Nat)
  | .node top => Search.node table folded (frames + 1) (levels + 1) top
  | .segments parts => Search.segments (Search.symbol table folded frames levels) folded parts
  | .items row => Search.items (Search.symbol table folded frames levels) folded row

section
variable {text : String} {rest : List Item}

theorem Phrase.search_emptyLiteral (he : text = "") :
    (Phrase.items (.literal text :: rest)).search table folded frames levels pos =
      (Phrase.items rest).search table folded frames levels pos := by
  simp only [search, Search.items, String.isEmpty_iff, he, ↓reduceIte]

theorem Phrase.search_literal (he : text ≠ "")
    (hm : tokens[pos]?.map Text.lower = some (Text.lower text)) :
    (Phrase.items (.literal text :: rest)).search table (tokens.map Text.lower) frames levels pos =
      (Phrase.items rest).search table (tokens.map Text.lower) frames levels (pos + 1) := by
  simp only [search, Search.items, String.isEmpty_iff, he, List.getElem?_map, hm, ↓reduceIte]

theorem Phrase.search_literalFails (he : text ≠ "")
    (hm : tokens[pos]?.map Text.lower ≠ some (Text.lower text)) :
    (Phrase.items (.literal text :: rest)).search table (tokens.map Text.lower) frames levels pos =
      pure none := by
  simp only [search, Search.items, String.isEmpty_iff, he, List.getElem?_map, hm, ↓reduceIte]

end

theorem Search.symbol_eq_search (hd : table.find? name = some definition) :
    Search.symbol table folded (frames + 3) (levels + 2) name =
      (Phrase.node definition).search table folded frames levels := by
  funext pos
  simp only [symbol, hd, Phrase.search, Nat.add_succ_sub_one]

theorem Evaluates.finds (h : Evaluates table tokens phrase pos stop s d) (hf : d.frames ≤ frames)
    (hd : d.depth ≤ levels) :
    (phrase.search table (tokens.map Text.lower) frames levels pos).Finds stop s := by
  induction h generalizing frames levels with
  | alternation _ _ ihl ihr =>
    simp only [Extent.operand, Extent.max_frames, Extent.max_depth] at hf hd
    obtain ⟨frames, rfl⟩ : ∃ k, frames = k + 1 := ⟨frames - 1, by omega⟩
    obtain ⟨levels, rfl⟩ : ∃ k, levels = k + 1 := ⟨levels - 1, by omega⟩
    have hl := @ihl frames levels (by omega) (by omega)
    have hr := @ihr frames levels (by omega) (by omega)
    rw [Phrase.search, Search.node]
    exact hl.bind (hr.bind_pure rfl)
  | sequence _ ih => exact ih hf hd
  | noSegments | noItems => exact .pure
  | run _ _ ihi ihr =>
    simp only [Extent.max_frames, Extent.max_depth] at hf hd
    exact (@ihi frames levels (by omega) (by omega)).bind (ihr (by omega) (by omega))
  | runFails _ ih => exact (ih hf hd).bind_pure rfl
  | group _ _ ihi ihr =>
    simp only [Extent.max_frames, Extent.max_depth] at hf hd
    have hitems := @ihi frames levels (by omega) (by omega)
    exact (Search.Finds.group hitems).bind (@ihr frames levels (by omega) (by omega))
  | emptyLiteral he _ ih =>
    rw [Phrase.search_emptyLiteral he]
    exact ih hf hd
  | literal he hm _ ih =>
    rw [Phrase.search_literal he hm]
    exact ih hf hd
  | literalFails he hm =>
    rw [Phrase.search_literalFails he hm]
    exact .pure
  | reference hdef _ _ ihn ihr =>
    simp only [Extent.reference, Extent.max_frames, Extent.max_depth] at hf hd
    obtain ⟨frames, rfl⟩ : ∃ k, frames = k + 3 := ⟨frames - 3, by omega⟩
    obtain ⟨levels, rfl⟩ : ∃ k, levels = k + 2 := ⟨levels - 2, by omega⟩
    have hn := @ihn frames levels (by omega) (by omega)
    rw [← Search.symbol_eq_search hdef] at hn
    exact hn.bind (Search.Finds.record (ihr (by omega) (by omega)))
  | referenceFails hdef _ ih =>
    simp only [Extent.reference] at hf hd
    obtain ⟨frames, rfl⟩ : ∃ k, frames = k + 3 := ⟨frames - 3, by omega⟩
    obtain ⟨levels, rfl⟩ : ∃ k, levels = k + 2 := ⟨levels - 2, by omega⟩
    have hn := @ih frames levels (by omega) (by omega)
    rw [← Search.symbol_eq_search hdef] at hn
    exact hn.bind_pure rfl

-- ---------------------------------------------------------------------------
-- A search without such a derivation fails
-- ---------------------------------------------------------------------------

/-- There is a derivation that fits the frames and levels, or the search fails. -/
def Phrase.Settles (table : SymbolTable) (tokens : List String) (frames levels : Nat)
    (phrase : Phrase) (pos : Nat) : Prop :=
  (∃ stop s d, Evaluates table tokens phrase pos stop s d ∧ d.frames ≤ frames ∧ d.depth ≤ levels) ∨
    (phrase.search table (tokens.map Text.lower) frames levels pos).Fails

theorem Phrase.Settles.keeps (h : phrase.Settles table tokens frames levels pos) :
    (phrase.search table (tokens.map Text.lower) frames levels pos).Keeps := by
  rcases h with ⟨stop, s, d, h, hf, hd⟩ | h
  · exact (h.finds hf hd).keeps
  · exact h.keeps

def SettlesReference (table : SymbolTable) (tokens : List String) (frames levels : Nat)
    (name : String) (pos : Nat) : Prop :=
  (∃ node stop s d, table.find? name = some node ∧
    Evaluates table tokens (.node node) pos stop s d ∧ d.frames + 3 ≤ frames ∧
      d.depth + 2 ≤ levels) ∨
    (Search.symbol table (tokens.map Text.lower) frames levels name pos).Fails

theorem settles_items
    (h : ∀ name ∈ Phrase.references (.items row), ∀ pos,
      SettlesReference table tokens frames levels name pos) :
    (Phrase.items row).Settles table tokens frames levels pos := by
  induction row generalizing pos with
  | nil => exact .inl ⟨_, _, _, .noItems, Nat.zero_le _, Nat.zero_le _⟩
  | cons item rest ih =>
    cases item with
    | literal text =>
      have hrest : ∀ pos, (Phrase.items rest).Settles table tokens frames levels pos :=
        fun pos => ih (by simpa using h)
      by_cases he : text = ""
      · rcases hrest pos with ⟨stop, s, d, hr, hfits⟩ | hr
        · exact .inl ⟨_, _, _, .emptyLiteral he hr, hfits⟩
        · exact .inr (by rwa [Phrase.search_emptyLiteral he])
      by_cases hm : tokens[pos]?.map Text.lower = some (Text.lower text)
      · rcases hrest (pos + 1) with ⟨stop, s, d, hr, hfits⟩ | hr
        · exact .inl ⟨_, _, _, .literal he hm hr, hfits⟩
        · exact .inr (by rwa [Phrase.search_literal he hm])
      · exact .inl ⟨_, _, _, .literalFails he hm, Nat.zero_le _, Nat.zero_le _⟩
    | reference name =>
      have hrest : ∀ pos, (Phrase.items rest).Settles table tokens frames levels pos :=
        fun pos => ih fun name hname => h name (List.mem_cons_of_mem _ hname)
      rcases h name (List.mem_cons_self ..) pos with ⟨node, stop, s, d, hdef, hn, hf, hd⟩ | hfails
      · cases stop with
        | none => exact .inl ⟨_, _, _, .referenceFails hdef hn, hf, hd⟩
        | some mid =>
          rcases hrest mid with ⟨stop, t, e, hr, hf', hd'⟩ | hr
          · exact .inl ⟨_, _, _, .reference hdef hn hr, Nat.max_le.mpr ⟨hf, hf'⟩,
              Nat.max_le.mpr ⟨hd, hd'⟩⟩
          · have hname : (Search.symbol table (tokens.map Text.lower) frames levels name pos).Finds
                (some mid) s := by
              obtain ⟨frames, rfl⟩ : ∃ k, frames = k + 3 := ⟨frames - 3, by omega⟩
              obtain ⟨levels, rfl⟩ : ∃ k, levels = k + 2 := ⟨levels - 2, by omega⟩
              rw [Search.symbol_eq_search hdef]
              exact hn.finds (by omega) (by omega)
            exact .inr (hname.bind_fails hr.record)
      · exact .inr (hfails.bind_some fun stop => (hrest stop).keeps.record)

theorem settles_segments
    (h : ∀ name ∈ Phrase.references (.segments parts), ∀ pos,
      SettlesReference table tokens frames levels name pos) :
    (Phrase.segments parts).Settles table tokens frames levels pos := by
  induction parts generalizing pos with
  | nil => exact .inl ⟨_, _, _, .noSegments, Nat.zero_le _, Nat.zero_le _⟩
  | cons part rest ih =>
    have hitems : (Phrase.items part.items).Settles table tokens frames levels pos :=
      settles_items fun name hname => h name (List.mem_append_left _ hname)
    have hrest : ∀ pos, (Phrase.segments rest).Settles table tokens frames levels pos :=
      fun pos => ih fun name hname => h name (List.mem_append_right _ hname)
    cases part with
    | run row =>
      rcases hitems with ⟨stop, s, d, hi, hf, hd⟩ | hfails
      · cases stop with
        | none => exact .inl ⟨_, _, _, .runFails hi, hf, hd⟩
        | some mid =>
          rcases hrest mid with ⟨stop, t, e, hr, hf', hd'⟩ | hr
          · exact .inl ⟨_, _, _, .run hi hr, Nat.max_le.mpr ⟨hf, hf'⟩, Nat.max_le.mpr ⟨hd, hd'⟩⟩
          · exact .inr ((hi.finds hf hd).bind_fails hr)
      · exact .inr (hfails.bind_some fun stop => (hrest stop).keeps)
    | group row mark =>
      rcases hitems with ⟨reached, s, d, hi, hf, hd⟩ | hfails
      · rcases hrest (reached.getD pos) with ⟨stop, t, e, hr, hf', hd'⟩ | hr
        · exact .inl ⟨_, _, _, .group hi hr, Nat.max_le.mpr ⟨hf, hf'⟩, Nat.max_le.mpr ⟨hd, hd'⟩⟩
        · exact .inr ((Search.Finds.group (hi.finds hf hd)).bind_fails hr)
      · exact .inr (Search.Fails.bind_some (.group hfails) fun stop => (hrest stop).keeps)

-- ---------------------------------------------------------------------------
-- The search for a node
-- ---------------------------------------------------------------------------

/-- There is a derivation of a node that fits so many frames and levels, the node's own included, or
the search fails. -/
def SettlesNode (table : SymbolTable) (tokens : List String) (frames levels : Nat) (n : Node)
    (pos : Nat) : Prop :=
  (∃ stop s d, Evaluates table tokens (.node n) pos stop s d ∧ d.frames < frames ∧
    d.depth < levels) ∨ (Search.node table (tokens.map Text.lower) frames levels n pos).Fails

theorem Evaluates.finds_node (h : Evaluates table tokens (.node n) pos stop s d)
    (hf : d.frames < frames) (hd : d.depth < levels) :
    (Search.node table (tokens.map Text.lower) frames levels n pos).Finds stop s := by
  obtain ⟨frames, rfl⟩ : ∃ k, frames = k + 1 := ⟨frames - 1, by omega⟩
  obtain ⟨levels, rfl⟩ : ∃ k, levels = k + 1 := ⟨levels - 1, by omega⟩
  exact h.finds (Nat.le_of_lt_succ hf) (Nat.le_of_lt_succ hd)

theorem SettlesNode.keeps (h : SettlesNode table tokens frames levels n pos) :
    (Search.node table (tokens.map Text.lower) frames levels n pos).Keeps := by
  rcases h with ⟨stop, s, d, h, hf, hd⟩ | h
  · exact (h.finds_node hf hd).keeps
  · exact h.keeps

mutual
theorem settles_node (closed : table.undefinedNames = []) : (frames levels : Nat) → (n : Node) →
    (pos : Nat) → (∀ name ∈ n.references, (table.find? name).isSome) →
    SettlesNode table tokens frames levels n pos
  | 0, _, _, _, _ => .inr (by rw [Search.node]; exact Search.fails_noFrame)
  | _ + 1, 0, _, _, _ => .inr (by rw [Search.node]; exact Search.fails_giveUp)
  | frames + 1, levels + 1, .alternation left right, pos, hr => by
    simp only [Node.references, List.mem_append] at hr
    have hleft := settles_node closed frames levels left pos fun name h => hr name (.inl h)
    have hright := settles_node closed frames levels right pos fun name h => hr name (.inr h)
    rcases hleft with ⟨i, s, d, hl, hf, hd⟩ | hl
    · rcases hright with ⟨j, t, e, hr, hf', hd'⟩ | hr
      · exact .inl ⟨_, _, _, .alternation hl hr, by simp [Extent.operand]; omega,
          by simp [Extent.operand]; omega⟩
      · refine .inr ?_
        rw [Search.node]
        exact (hl.finds_node hf hd).bind_fails (hr.bind fun _ => Search.Finds.pure.keeps)
    · refine .inr ?_
      rw [Search.node]
      exact hl.bind fun _ spans => (hright.keeps spans).bind fun _ => Search.Finds.pure.keeps
  | frames + 1, levels + 1, .sequence parts, pos, hr => by
    have hparts : (Phrase.segments parts).Settles table tokens frames levels pos :=
      settles_segments fun name hname pos => settles_reference closed frames levels name pos
        (hr name hname)
    rcases hparts with ⟨stop, s, d, h, hf, hd⟩ | hfails
    · exact .inl ⟨stop, s, d, .sequence h, Nat.lt_succ_of_le hf, Nat.lt_succ_of_le hd⟩
    · exact .inr (by rwa [Search.node])

theorem settles_reference (closed : table.undefinedNames = []) : (frames levels : Nat) →
    (name : String) → (pos : Nat) → (table.find? name).isSome →
    SettlesReference table tokens frames levels name pos
  | 0, _, _, _, _ => .inr (by rw [Search.symbol]; exact Search.fails_noFrame)
  | 1, _, _, _, _ => .inr (by rw [Search.symbol]; exact Search.fails_noFrame)
  | frames + 2, levels, name, pos, hs => by
    obtain ⟨definition, hd⟩ := Option.isSome_iff_exists.mp hs
    rcases settles_node closed frames (levels - 1) definition pos fun _ =>
      SymbolTable.isSome_find?_of_closed closed hd with ⟨stop, s, d, h, hf, hdepth⟩ | hfails
    · exact .inl ⟨definition, stop, s, d, hd, h, by omega, by omega⟩
    · refine .inr ?_
      rw [Search.symbol, hd]
      exact hfails
end

end BackusNaur
