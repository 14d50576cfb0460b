import RtcmBridge.Layout.Edits

/-!
# The sections of a file in another order

A file whose sections all have their headers is a sequence of blocks (`Block`).
What a block does to the configuration does not depend on the section before it,
and where the parsers of different sections keep out of each other's way
(`Separate`), two blocks of different sections can change places: the file in
another order is accepted too, with the same configuration
(`accepted_of_permuted`).
-/

namespace RtcmBridge

/-! ### Partial functions that commute -/

/-- The order of `f` and `g` does not matter. -/
def Independent {γ : Type} (f g : γ → Option γ) : Prop := ∀ c, (f c).bind g = (g c).bind f

section Independent

variable {γ α : Type} {f : γ → Option γ} {g : α → γ → Option γ} {l m : List α}

theorem Independent.symm {g : γ → Option γ} (h : Independent f g) : Independent g f :=
  fun c => (h c).symm

/-- What commutes with every step commutes with all of them in turn. -/
theorem Independent.foldlM (h : ∀ a ∈ l, Independent f (g a)) :
    Independent f fun c => l.foldlM (fun c a => g a c) c := by
  induction l with
  | nil =>
    intro c
    exact Option.bind_fun_some (f c)
  | cons a l ih =>
    intro c
    have ih := ih fun b hb => h b (List.mem_cons_of_mem _ hb)
    calc (f c).bind (fun c => (g a c).bind fun c => l.foldlM (fun c a => g a c) c)
        = ((f c).bind (g a)).bind fun c => l.foldlM (fun c a => g a c) c :=
          (Option.bind_assoc ..).symm
      _ = ((g a c).bind f).bind fun c => l.foldlM (fun c a => g a c) c := by
          rw [h a List.mem_cons_self c]
      _ = (g a c).bind fun c => (l.foldlM (fun c a => g a c) c).bind f := by
          rw [Option.bind_assoc]
          exact congrArg _ (funext ih)
      _ = ((g a c).bind fun c => l.foldlM (fun c a => g a c) c).bind f :=
          (Option.bind_assoc ..).symm

theorem foldl_bind (g : α → γ → Option γ) (l : List α) (o : Option γ) :
    l.foldl (fun o a => o.bind (g a)) o = o.bind fun c => l.foldlM (fun c a => g a c) c := by
  induction l generalizing o with
  | nil => exact (Option.bind_fun_some o).symm
  | cons a l ih =>
    rw [List.foldl_cons, ih, Option.bind_assoc]
    rfl

/-- Steps that commute can be taken in any order. -/
theorem foldlM_perm (hperm : l.Perm m)
    (h : ∀ a ∈ l, ∀ b ∈ l, a ≠ b → Independent (g a) (g b)) (c : γ) :
    l.foldlM (fun c a => g a c) c = m.foldlM (fun c a => g a c) c := by
  have hfoldl := hperm.foldl_eq' (f := fun o a => o.bind (g a)) (fun a ha b hb o => ?_) (some c)
  · rwa [foldl_bind, foldl_bind] at hfoldl
  · by_cases hab : a = b
    · rw [hab]
    · rw [Option.bind_assoc, Option.bind_assoc]
      exact congrArg _ (funext (h a ha b hb hab))

end Independent

namespace ConfigurationFile

/-- The configuration, if it is accepted. -/
def accepted {γ : Type} (p : Parsed γ) : Option γ :=
  match p with
  | (none, configuration) => some configuration
  | (some _, _) => none

/-! ### Blocks -/

/-- A section of a file: its header, and the lines up to the next one. -/
structure Block where
  header : Bytes
  body : List Bytes
  header_line : (trimCopy header).head? = some 91
  body_lines : ∀ line ∈ body, (trimCopy line).head? ≠ some 91

/-- The lines of a section, with its header. -/
def Block.lines (b : Block) : List Bytes := b.header :: b.body

/-- Two blocks are not of one section, which may have several names. -/
def Block.Distinct {σ : Type} (header : Bytes → Except Bytes σ) (b b' : Block) : Prop :=
  ∀ current, header (trimCopy b.header) = .ok current → header (trimCopy b'.header) ≠ .ok current

/-- Two files of blocks in different orders, where no section occurs twice. There may
    be blank lines and comments in front of the first header. -/
def Permuted {σ : Type} (header : Bytes → Except Bytes σ) (ls ls' : List Bytes) : Prop :=
  ∃ (ignored : List Bytes) (blocks blocks' : List Block), (∀ line ∈ ignored, Ignored line) ∧
    ls = ignored ++ blocks.flatMap Block.lines ∧ ls' = ignored ++ blocks'.flatMap Block.lines ∧
    blocks.Perm blocks' ∧ blocks.Pairwise (Block.Distinct header)

section Loop

variable {σ γ : Type} {header : Bytes → Except Bytes σ} {body : σ → Bytes → γ → Parsed γ}
  {ls ls' : List Bytes} {b b' : Block}

/-- The parsers of the sections keep out of each other's way: whether a line is
    accepted does not depend on the configuration, and lines of different sections
    can be stored in either order. -/
structure Separate (body : σ → Bytes → γ → Parsed γ) : Prop where
  error : ∀ current line configuration configuration',
    (body current line configuration).1 = (body current line configuration').1
  store : ∀ current current' line line' configuration, current ≠ current' →
    (body current' line' (body current line configuration).2).2 =
      (body current line (body current' line' configuration).2).2

theorem accepted_eq (p : Parsed γ) : accepted p = if p.1 = none then some p.2 else none := by
  rcases p with ⟨_ | error, configuration⟩ <;> rfl

/-- Lines of two sections do not depend on each other. -/
theorem Separate.independent (hbody : Separate body) {current current' : σ}
    (hne : current ≠ current') (line line' : Bytes) :
    Independent (fun c => accepted (body current line c))
      fun c => accepted (body current' line' c) := by
  intro c
  simp only [accepted_eq]
  by_cases h : (body current line c).1 = none <;> by_cases h' : (body current' line' c).1 = none
  all_goals
    simp only [h, h', reduceIte, Option.bind_some, Option.bind_none,
      hbody.error current line _ c, hbody.error current' line' _ c]
  rw [hbody.store current current' line line' c hne]

/-- The lines of a block that count, trimmed. -/
def bodyOf (ls : List Bytes) : List Bytes :=
  (ls.map trimCopy).filter fun line => line ≠ [] ∧ line.head? ≠ some 35

/-- What a block does to the configuration. -/
def Block.run (header : Bytes → Except Bytes σ) (body : σ → Bytes → γ → Parsed γ) (b : Block)
    (c : γ) : Option γ :=
  match header (trimCopy b.header) with
  | .error _ => none
  | .ok current => (bodyOf b.body).foldlM (fun c line => accepted (body current line c)) c

/-- The lines without headers, up to the next ones. -/
theorem parseLines_body_append (hls : ∀ line ∈ ls, (trimCopy line).head? ≠ some 91) (current : σ)
    (c : γ) :
    accepted (parseLines header body current (ls ++ ls') c) =
      ((bodyOf ls).foldlM (fun c line => accepted (body current line c)) c).bind
        fun c => accepted (parseLines header body current ls' c) := by
  induction ls generalizing c with
  | nil => rfl
  | cons line ls ih =>
    have ih := ih fun l hl => hls l (List.mem_cons_of_mem _ hl)
    rw [List.cons_append, parseLines, bodyOf, List.map_cons, List.filter_cons]
    by_cases hline : trimCopy line ≠ [] ∧ (trimCopy line).head? ≠ some 35
    · rw [if_pos hline, if_neg (hls line List.mem_cons_self), if_pos (decide_eq_true hline),
        List.foldlM_cons]
      rcases hstep : body current (trimCopy line) c with ⟨_ | error, c'⟩
      · exact ih c'
      · rfl
    · rw [if_neg hline, if_neg (by simpa using hline)]
      exact ih c

/-- A file of blocks is read block by block. -/
theorem parseLines_blocks (blocks : List Block) (current : σ) (c : γ) :
    accepted (parseLines header body current (blocks.flatMap Block.lines) c) =
      blocks.foldlM (fun c b => b.run header body c) c := by
  induction blocks generalizing current c with
  | nil => rfl
  | cons b blocks ih =>
    have hne : trimCopy b.header ≠ [] := fun h => absurd b.header_line (by simp [h])
    have hcomment : (trimCopy b.header).head? ≠ some 35 := by rw [b.header_line]; decide
    rw [List.flatMap_cons, Block.lines, List.cons_append, parseLines, if_pos ⟨hne, hcomment⟩,
      if_pos b.header_line, List.foldlM_cons, Block.run]
    rcases header (trimCopy b.header) with error | next
    · rfl
    · simp only [parseLines_body_append b.body_lines, ih]
      rfl

/-- Blocks of different sections can change places. -/
theorem Separate.run_independent (hbody : Separate body) (h : b.Distinct header b') :
    Independent (b.run header body) (b'.run header body) := by
  have hnone {b : Block} {error : Bytes} (hb : header (trimCopy b.header) = .error error) :
      b.run header body = fun _ => none := by
    funext c
    rw [Block.run, hb]
  have hsome {b : Block} {current : σ} (hb : header (trimCopy b.header) = .ok current) :
      b.run header body =
        fun c => (bodyOf b.body).foldlM (fun c line => accepted (body current line c)) c := by
    funext c
    rw [Block.run, hb]
  rcases hb : header (trimCopy b.header) with error | current
  · rw [hnone hb]
    exact fun c => (Option.bind_fun_none _).symm
  rcases hb' : header (trimCopy b'.header) with error | current'
  · rw [hnone hb']
    exact fun c => Option.bind_fun_none _
  have hne : current ≠ current' := by
    rintro rfl
    exact h current hb hb'
  rw [hsome hb, hsome hb']
  refine Independent.foldlM fun line' _ => Independent.symm ?_
  exact Independent.foldlM fun line _ => (hbody.independent hne line line').symm

/-- The order of the sections does not matter. -/
theorem Separate.accepted_of_permuted (hbody : Separate body) (h : Permuted header ls ls')
    (current : σ) (c : γ) :
    accepted (parseLines header body current ls c) =
      accepted (parseLines header body current ls' c) := by
  obtain ⟨ignored, blocks, blocks', hignored, rfl, rfl, hperm, hdistinct⟩ := h
  have hskip (ls : List Bytes) : parseLines header body current (ignored ++ ls) c =
      parseLines header body current ls c := by
    clear hperm hdistinct
    induction ignored with
    | nil => rfl
    | cons line ignored ih =>
      rw [List.cons_append, parseLines_ignored (hignored line List.mem_cons_self)]
      exact ih fun l hl => hignored l (List.mem_cons_of_mem _ hl)
  have hsymm : Std.Symm (Block.Distinct header) := ⟨fun b b' h current hb' hb => h current hb hb'⟩
  rw [hskip, hskip, parseLines_blocks, parseLines_blocks]
  exact foldlM_perm hperm (fun b hb b' hb' hne =>
    hbody.run_independent (hdistinct.forall hb hb' hne)) c

end Loop

end ConfigurationFile

end RtcmBridge
