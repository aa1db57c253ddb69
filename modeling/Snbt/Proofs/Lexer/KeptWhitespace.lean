import Mathlib.Data.List.Chain
import Snbt.Proofs.Command.ListedTokens

namespace Snbt

/-!
# Keeping whitespace

Whether whitespace is kept or passed over, the segments are the same.  Passing
over it drops its tokens, and then invalid input on both sides of it is one
token; all other tokens stay as they are.
-/

namespace Lexeme

/-- Anything but whitespace. -/
def isSolid (lexeme : Lexeme) : Bool :=
  lexeme.kind ≠ .whitespace

/-- Anything but invalid input. -/
def isValid (lexeme : Lexeme) : Bool :=
  lexeme.kind ≠ .invalid

variable {lexeme : Lexeme} {lexemes : List Lexeme}

theorem joinInvalid_cons
    (lexeme : Lexeme)
    (lexemes : List Lexeme) :
    joinInvalid (lexeme :: lexemes) = joinOnto lexeme (joinInvalid lexemes) :=
  rfl

/-- Of two lexemes that are not both invalid, the first is left as it is. -/
theorem joinOnto_of_apart
    {next : Lexeme}
    {rest : List Lexeme}
    (apart : ¬(lexeme.kind = .invalid ∧ next.kind = .invalid)) :
    joinOnto lexeme (next :: rest) = lexeme :: next :: rest :=
  if_neg apart

theorem joinOnto_of_valid
    (valid : lexeme.kind ≠ .invalid)
    (lexemes : List Lexeme) :
    joinOnto lexeme lexemes = lexeme :: lexemes := by
  cases lexemes with
  | nil =>
      rfl
  | cons next rest =>
      exact joinOnto_of_apart fun both => valid both.1

/-- What is put before a list begins as the lexeme does. -/
theorem joinOnto_eq_cons
    (lexeme : Lexeme)
    (lexemes : List Lexeme) :
    ∃ first rest, joinOnto lexeme lexemes = first :: rest ∧
      first.kind = lexeme.kind := by
  cases lexemes with
  | nil =>
      exact ⟨lexeme, [], rfl, rfl⟩
  | cons next rest =>
      rw [joinOnto]
      split
      case isTrue =>
        exact ⟨_, rest, rfl, rfl⟩
      case isFalse =>
        exact ⟨lexeme, next :: rest, rfl, rfl⟩

/--
To put an invalid lexeme before a joined list is to join it with the list.
-/
private theorem joinInvalid_filter_joinOnto
    (invalid : lexeme.kind = .invalid)
    (lexemes : List Lexeme) :
    joinInvalid ((joinOnto lexeme lexemes).filter isSolid) =
      joinInvalid (lexeme :: lexemes.filter isSolid) := by
  have solid :
      ∀ other : Lexeme, other.kind = .invalid → other.isSolid = true := by
    intro other isInvalid
    simp [isSolid, isInvalid]
  cases lexemes with
  | nil =>
      rw [joinOnto, List.filter_cons_of_pos (solid lexeme invalid)]
  | cons next rest =>
      by_cases nextInvalid : next.kind = .invalid
      · rw [joinOnto, if_pos ⟨invalid, nextInvalid⟩,
          List.filter_cons_of_pos
            (solid { lexeme with stop := next.stop } invalid),
          List.filter_cons_of_pos (solid next nextInvalid),
          joinInvalid_of_invalid invalid nextInvalid]
      · rw [joinOnto_of_apart fun both => nextInvalid both.2,
          List.filter_cons_of_pos (solid lexeme invalid)]

/-- Where whitespace is dropped it does not matter what was joined before. -/
theorem joinInvalid_filter
    (lexemes : List Lexeme) :
    joinInvalid ((joinInvalid lexemes).filter isSolid) =
      joinInvalid (lexemes.filter isSolid) := by
  induction lexemes with
  | nil =>
      rfl
  | cons lexeme rest inductionHypothesis =>
      rw [joinInvalid_cons]
      by_cases invalid : lexeme.kind = .invalid
      · have solid : lexeme.isSolid = true := by
          simp [isSolid, invalid]
        rw [joinInvalid_filter_joinOnto invalid, List.filter_cons_of_pos solid,
          joinInvalid_cons, joinInvalid_cons, inductionHypothesis]
      · rw [joinOnto_of_valid invalid]
        by_cases solid : lexeme.isSolid = true
        · rw [List.filter_cons_of_pos solid, List.filter_cons_of_pos solid,
            joinInvalid_cons, joinInvalid_cons, inductionHypothesis]
        · rw [List.filter_cons_of_neg solid, List.filter_cons_of_neg solid]
          exact inductionHypothesis

/-- A valid lexeme at the end is not joined with those before it. -/
theorem joinInvalid_concat
    (valid : lexeme.kind ≠ .invalid)
    (lexemes : List Lexeme) :
    joinInvalid (lexemes ++ [lexeme]) = joinInvalid lexemes ++ [lexeme] := by
  induction lexemes with
  | nil =>
      rfl
  | cons first rest inductionHypothesis =>
      rw [List.cons_append, joinInvalid_cons, joinInvalid_cons,
        inductionHypothesis]
      cases joinInvalid rest with
      | nil =>
          exact joinOnto_of_apart fun both => valid both.2
      | cons next later =>
          rw [List.cons_append, joinOnto, joinOnto]
          split <;> rfl

/-- Joining invalid lexemes leaves the valid ones. -/
theorem filter_isValid_joinInvalid
    (lexemes : List Lexeme) :
    (joinInvalid lexemes).filter isValid = lexemes.filter isValid := by
  induction lexemes with
  | nil =>
      rfl
  | cons lexeme rest inductionHypothesis =>
      rw [joinInvalid_cons]
      by_cases invalid : lexeme.kind = .invalid
      · have dropped :
            ∀ other : Lexeme, other.kind = .invalid →
              ¬other.isValid = true := by
          intro other isInvalid
          simp [isValid, isInvalid]
        rw [List.filter_cons_of_neg (dropped lexeme invalid),
          ← inductionHypothesis]
        cases joinInvalid rest with
        | nil =>
            exact List.filter_cons_of_neg (dropped lexeme invalid)
        | cons next later =>
            rw [joinOnto]
            split
            case isTrue both =>
              rw [List.filter_cons_of_neg
                (dropped { lexeme with stop := next.stop } invalid),
                  List.filter_cons_of_neg (dropped next both.2)]
            case isFalse =>
              exact List.filter_cons_of_neg (dropped lexeme invalid)
      · rw [joinOnto_of_valid invalid, List.filter_cons, List.filter_cons,
          inductionHypothesis]

/-- What is joined is of the kinds that there were. -/
theorem exists_kind_of_mem_joinInvalid
    (member : lexeme ∈ joinInvalid lexemes) :
    ∃ other ∈ lexemes, other.kind = lexeme.kind := by
  induction lexemes with
  | nil =>
      cases member
  | cons first rest inductionHypothesis =>
      rw [joinInvalid_cons] at member
      have later : lexeme ∈ joinInvalid rest →
          ∃ other ∈ first :: rest, other.kind = lexeme.kind := by
        intro isLater
        obtain ⟨other, isOther, sameKind⟩ := inductionHypothesis isLater
        exact ⟨other, List.mem_cons_of_mem _ isOther, sameKind⟩
      cases joined : joinInvalid rest with
      | nil =>
          rw [joined] at member
          cases List.mem_singleton.mp member
          exact ⟨lexeme, List.mem_cons_self, rfl⟩
      | cons next others =>
          rw [joined] at member later
          rw [joinOnto] at member
          split at member
          case isTrue =>
            rcases List.mem_cons.mp member with rfl | isOther
            · exact ⟨first, List.mem_cons_self, rfl⟩
            · exact later (List.mem_cons_of_mem _ isOther)
          case isFalse =>
            rcases List.mem_cons.mp member with rfl | isLater
            · exact ⟨lexeme, List.mem_cons_self, rfl⟩
            · exact later isLater

/-- Joining leaves no more lexemes than there were. -/
theorem length_joinInvalid_le
    (lexemes : List Lexeme) :
    (joinInvalid lexemes).length ≤ lexemes.length := by
  induction lexemes with
  | nil =>
      exact Nat.le_refl _
  | cons lexeme rest inductionHypothesis =>
      rw [joinInvalid_cons, List.length_cons]
      refine Nat.le_trans ?_ (Nat.succ_le_succ inductionHypothesis)
      cases joinInvalid rest with
      | nil =>
          exact Nat.le_refl _
      | cons next later =>
          rw [joinOnto]
          split
          case isTrue =>
            exact Nat.le_succ _
          case isFalse =>
            exact Nat.le_refl _

/-- Nothing is joined exactly if no two invalid lexemes follow each other. -/
theorem joinInvalid_eq_self_iff
    (lexemes : List Lexeme) :
    joinInvalid lexemes = lexemes ↔
      lexemes.IsChain fun first second =>
        ¬(first.kind = .invalid ∧ second.kind = .invalid) := by
  induction lexemes with
  | nil =>
      exact iff_of_true rfl .nil
  | cons lexeme rest inductionHypothesis =>
      cases rest with
      | nil =>
          exact iff_of_true rfl (.singleton _)
      | cons next later =>
          rw [List.isChain_cons_cons, ← inductionHypothesis, joinInvalid_cons]
          obtain ⟨first, others, joined, sameKind⟩ :=
            joinOnto_eq_cons next (joinInvalid later)
          rw [joinInvalid_cons next, joined]
          constructor
          · intro same
            rw [joinOnto] at same
            split at same
            case isTrue =>
              -- The rest would have been joined to more lexemes than it has.
              have shorter := length_joinInvalid_le (next :: later)
              rw [joinInvalid_cons, joined, (List.cons.inj same).2] at shorter
              exact absurd shorter (Nat.not_succ_le_self _)
            case isFalse apart =>
              rw [sameKind] at apart
              exact ⟨apart, (List.cons.inj same).2⟩
          · rintro ⟨apart, same⟩
            rw [← sameKind] at apart
            rw [joinOnto_of_apart apart, same]

end Lexeme

namespace Roles

variable {roles : Roles}

/--
Where no kind begins a longer token, the
spans are the segments that are not skipped.
-/
theorem spans_of_noMore
    (noMore : ∀ kind, roles.role kind ≠ .more)
    (size : Nat)
    (segments : List Lexeme) :
    roles.spans size none segments =
      segments.filter fun segment => roles.role segment.kind ≠ .skip := by
  induction segments with
  | nil =>
      rfl
  | cons segment rest inductionHypothesis =>
      rw [spans]
      split
      case h_1 role =>
        exact absurd role (noMore segment.kind)
      case h_2 role =>
        rw [List.filter_cons_of_neg (by simp [role])]
        exact inductionHypothesis
      case h_3 role =>
        rw [List.filter_cons_of_pos (by simp [role]), inductionHypothesis]
        rfl
      case h_4 role =>
        rw [List.filter_cons_of_pos (by simp [role]), inductionHypothesis]
        rfl

theorem role_standard
    (kind : Kind) :
    standard.role kind = if kind = .whitespace then .skip else .regular := by
  cases kind <;> rfl

theorem role_keepingWhitespace
    (kind : Kind) :
    keepingWhitespace.role kind = if kind =
      .whitespace then .unparsed else .regular := by
  cases kind <;> rfl

/-- Keeping whitespace makes a span of every segment. -/
theorem spans_keepingWhitespace
    (size : Nat)
    (segments : List Lexeme) :
    keepingWhitespace.spans size none segments = segments := by
  have notSkip : ∀ kind, keepingWhitespace.role kind ≠ .skip := by
    intro kind
    rw [role_keepingWhitespace]
    split <;> exact Role.noConfusion
  have notMore : ∀ kind, keepingWhitespace.role kind ≠ .more := by
    intro kind
    rw [role_keepingWhitespace]
    split <;> exact Role.noConfusion
  rw [spans_of_noMore notMore]
  exact List.filter_eq_self.mpr fun segment _ =>
    decide_eq_true (notSkip segment.kind)

/-- Passing over whitespace makes a span of every other segment. -/
theorem spans_standard
    (size : Nat)
    (segments : List Lexeme) :
    standard.spans size none segments = segments.filter Lexeme.isSolid := by
  have notMore : ∀ kind, standard.role kind ≠ .more := by
    intro kind
    rw [role_standard]
    split <;> exact Role.noConfusion
  rw [spans_of_noMore notMore]
  refine List.filter_congr fun segment _ => ?_
  rw [role_standard, Lexeme.isSolid]
  by_cases blank : segment.kind = .whitespace <;> simp [blank]

end Roles

namespace Scanner

/--
Passing over whitespace drops it, and joins the invalid input that
is not apart then.
-/
theorem lexemes_standard
    (scanner : Scanner)
    (offset : Nat) :
    { scanner with roles := .standard }.lexemes offset =
      Lexeme.joinInvalid
        (({ scanner with roles := .keepingWhitespace }.lexemes offset).filter
          Lexeme.isSolid) := by
  have solid : scanner.ending.isSolid = true :=
    rfl
  have valid : scanner.ending.kind ≠ .invalid :=
    Kind.noConfusion
  have passed :
      { scanner with roles := .standard }.lexemes offset =
        Lexeme.joinInvalid
          ((scanner.view.segments scanner.mode scanner.active offset).filter
            Lexeme.isSolid) ++ [scanner.ending] := by
    rw [lexemes, spans, Roles.spans_standard]
    rfl
  have kept :
      { scanner with roles := .keepingWhitespace }.lexemes offset =
        Lexeme.joinInvalid
          (scanner.view.segments scanner.mode scanner.active offset) ++
          [scanner.ending] := by
    rw [lexemes, spans, Roles.spans_keepingWhitespace]
    rfl
  rw [passed, kept, List.filter_append, List.filter_cons_of_pos solid,
    List.filter_nil, Lexeme.joinInvalid_concat valid, Lexeme.joinInvalid_filter]

/--
Anything but whitespace has the same outline whether whitespace is kept or not.
-/
theorem outline_standard
    {lexeme : Lexeme}
    (scanner : Scanner)
    (solid : lexeme.isSolid = true) :
    { scanner with roles := .standard }.outline lexeme =
      { scanner with roles := .keepingWhitespace }.outline lexeme := by
  have notBlank : lexeme.kind ≠ .whitespace := of_decide_eq_true solid
  simp only [outline, Roles.role_standard, Roles.role_keepingWhitespace,
    if_neg notBlank]

end Scanner

namespace Lexer

/-- The outlines of all tokens from the position on. -/
def outlines (lexer : Lexer) : List Outline :=
  lexer.tokenize.2.filterMap lexer.tokenize.1.outline?

variable {lexer keeping skipping : Lexer}

/--
A lexer that knows no token has the outlines
of the lexemes from its position on.
-/
theorem outlines_of_lexemes
    (plain : lexer.Plain 0)
    (inside : lexer.position ≤ lexer.buffer.size)
    (nothing : ∀ place, lexer.table.tokenAt? place = none) :
    lexer.outlines =
      (lexer.scanner.lexemes lexer.position).map lexer.scanner.outline := by
  have sameOutlines :=
    congrArg (List.filterMap fun outline? => outline?)
      (tokenize_outlines plain inside nothing)
  rw [List.filterMap_map, List.filterMap_map] at sameOutlines
  exact sameOutlines.trans (congrFun List.filterMap_eq_map _)

/--
What two lexers list of one input, one that keeps whitespace and one that
passes over it: the lexemes of the one, and what is left of them when
whitespace is dropped and the invalid input that is not apart then is joined.
-/
structure DropsWhitespace (keeping skipping : Lexer) (lexemes : List Lexeme) :
    Prop where
  kept : keeping.outlines = lexemes.map keeping.scanner.outline
  passed : skipping.outlines =
    (Lexeme.joinInvalid (lexemes.filter Lexeme.isSolid)).map
      keeping.scanner.outline
  keptLines : keeping.listing = lexemes.map fun lexeme =>
    keeping.listingLine lexeme.token
  passedLines : skipping.listing =
    (Lexeme.joinInvalid (lexemes.filter Lexeme.isSolid)).map fun lexeme =>
      keeping.listingLine lexeme.token
  /-- Tokens that are neither whitespace nor invalid are the same. -/
  others : skipping.outlines.filter (fun outline => outline.kind ≠ .invalid) =
    keeping.outlines.filter fun outline =>
      outline.kind ≠ .whitespace && outline.kind ≠ .invalid
  /--
  All are the same exactly if whitespace is nowhere all that keeps
  invalid input apart.
  -/
  same_iff :
    skipping.outlines =
      keeping.outlines.filter (fun outline => outline.kind ≠ .whitespace) ↔
      (keeping.outlines.filter fun outline =>
        outline.kind ≠ .whitespace).IsChain
        fun first second => ¬(first.kind = .invalid ∧ second.kind = .invalid)

/-- Lexemes with the same outline are the same. -/
theorem outline_injective
    (scanner : Scanner) :
    Function.Injective scanner.outline := by
  intro first second same
  have sameKind : first.kind = second.kind := congrArg Outline.kind same
  have sameStart : first.start = second.start := congrArg Outline.start same
  have sameStop : first.stop = second.stop := congrArg Outline.stop same
  obtain ⟨kind, start, stop⟩ := first
  exact Lexeme.mk.injEq .. ▸ ⟨sameKind, sameStart, sameStop⟩

/-- Outlines of some kinds are those of the lexemes of these kinds. -/
private theorem filter_map_outline
    (scanner : Scanner)
    (ofKind : Kind → Bool)
    (lexemes : List Lexeme) :
    (lexemes.map scanner.outline).filter (fun outline => ofKind outline.kind) =
      (lexemes.filter fun lexeme => ofKind lexeme.kind).map scanner.outline :=
  List.filter_map

/--
A lexer that knows no token lists whitespace, or drops it, as its roles say.
-/
theorem dropsWhitespace_of_nothing
    (sized : lexer.Sized)
    (inside : lexer.position ≤ lexer.buffer.size)
    (nothing : ∀ place, lexer.table.tokenAt? place = none) :
    ∃ lexemes, DropsWhitespace
      { lexer with roles := .keepingWhitespace }
      { lexer with roles := .standard } lexemes := by
  have keepingPlain : { lexer with roles := .keepingWhitespace }.Plain 0 :=
    Sized.plain ⟨sized.size_eq, sized.shown⟩ fun place _ => nothing place
  have skippingPlain : { lexer with roles := .standard }.Plain 0 :=
    Sized.plain ⟨sized.size_eq, sized.shown⟩ fun place _ => nothing place
  have cut := lexer.scanner.lexemes_standard lexer.position
  let lexemes :=
    { lexer.scanner with roles := .keepingWhitespace }.lexemes lexer.position
  let solid := lexemes.filter Lexeme.isSolid
  have kept := outlines_of_lexemes keepingPlain inside nothing
  have passed :
      { lexer with roles := .standard }.outlines =
        (Lexeme.joinInvalid solid).map
          { lexer.scanner with roles := .keepingWhitespace }.outline := by
    refine (outlines_of_lexemes skippingPlain inside nothing).trans ?_
    refine (congrArg _ cut).trans (List.map_congr_left fun lexeme member => ?_)
    obtain ⟨other, isSolid, sameKind⟩ :=
      Lexeme.exists_kind_of_mem_joinInvalid member
    refine lexer.scanner.outline_standard ?_
    rw [Lexeme.isSolid, ← sameKind]
    exact (List.mem_filter.mp isSolid).2
  refine ⟨lexemes, kept, passed, ?_, ?_, ?_, ?_⟩
  · exact listing_of_lexemes keepingPlain inside nothing
  · exact (listing_of_lexemes skippingPlain inside nothing).trans
      (congrArg _ cut)
  · rw [kept, passed]
    refine (filter_map_outline _ (fun kind : Kind => kind ≠ .invalid) _).trans
      ?_
    refine Eq.trans ?_
      (filter_map_outline _
        (fun kind => kind ≠ Kind.whitespace && kind ≠ Kind.invalid) _).symm
    refine congrArg _ ((Lexeme.filter_isValid_joinInvalid solid).trans ?_)
    rw [List.filter_filter]
    exact List.filter_congr fun lexeme _ => Bool.and_comm _ _
  · have keptSolid :
        (outlines { lexer with roles := .keepingWhitespace }).filter
            (fun outline => outline.kind ≠ .whitespace) =
          solid.map
            { lexer.scanner with roles := .keepingWhitespace }.outline := by
      rw [kept]
      exact filter_map_outline _ (fun kind : Kind => kind ≠ .whitespace) _
    rw [keptSolid, passed,
      (List.map_injective_iff.mpr (outline_injective _)).eq_iff,
      List.isChain_map]
    exact Lexeme.joinInvalid_eq_self_iff solid

/-- Masks do not look at the roles. -/
theorem masked_withRoles
    (lexer : Lexer)
    (roles : Roles)
    (masks : List LineMask) :
    { lexer with roles }.masked masks = { lexer.masked masks with roles } := by
  induction masks generalizing lexer with
  | nil =>
      rfl
  | cons first rest inductionHypothesis =>
      have step :
          { lexer with roles }.mask first =
            { lexer.mask first with roles } := by
        cases first <;> rfl
      exact (congrArg (fun lexer => lexer.masked rest) step).trans
        (inductionHypothesis _)

/--
Under any masks a fresh lexer lists whitespace, or drops it, as its roles say.
-/
theorem fresh_dropsWhitespace
    (settings : LexerSettings)
    (buffer : Buffer)
    (active : KindSet)
    (masks : List LineMask) :
    ∃ lexemes, DropsWhitespace
      ((fresh { settings with roles := .keepingWhitespace } buffer
        active).masked masks)
      ((fresh { settings with roles := .standard } buffer active).masked masks)
      lexemes := by
  obtain ⟨isMasked, _⟩ := fresh_masked settings buffer active masks
  have inside : ((fresh settings buffer active).masked masks).position ≤
      ((fresh settings buffer active).masked masks).buffer.size := by
    rw [isMasked.position_eq]
    exact Nat.zero_le _
  have drops :=
    dropsWhitespace_of_nothing isMasked.plain.sized inside isMasked.nothing
  rw [← masked_withRoles, ← masked_withRoles] at drops
  exact drops

/--
Keeping whitespace adds tokens of whitespace and keeps apart the invalid input
on both sides of it; it changes no other token and no other line of a listing.
-/
theorem keepingWhitespace_adds_whitespace :
    (∀ (settings : LexerSettings) buffer active masks, ∃ lexemes,
      DropsWhitespace
      ((fresh { settings with roles := .keepingWhitespace } buffer
        active).masked masks)
      ((fresh { settings with roles := .standard } buffer active).masked masks)
      lexemes) ∧
    ∀ (options : Options) inputName bytes, ∃ lexemes, DropsWhitespace
      ({ options with keepWhitespace := true }.lexer inputName bytes)
      ({ options with keepWhitespace := false }.lexer inputName bytes)
      lexemes := by
  refine ⟨fresh_dropsWhitespace, fun options inputName bytes => ?_⟩
  rw [Options.lexer_eq_masked, Options.lexer_eq_masked]
  exact fresh_dropsWhitespace (options.settings inputName) _ .full options.masks

/--
Invalid input on both sides of whitespace
is one token if whitespace is passed over.
-/
theorem skipping_joins_invalid :
    let keeping :=
      fresh { LexerSettings.standard with roles := .keepingWhitespace }
        (.ofString .standard "@ @") .full
    let skipping := fresh .standard (.ofString .standard "@ @") .full
    skipping.outlines ≠
        keeping.outlines.filter (fun outline => outline.kind ≠ .whitespace) ∧
      skipping.outlines =
        [⟨.invalid, false, "@ @", 0, 3⟩, ⟨.eof, false, "", 3, 3⟩] ∧
      keeping.outlines.filter (fun outline => outline.kind ≠ .whitespace) =
        [⟨.invalid, false, "@", 0, 1⟩, ⟨.invalid, false, "@", 2, 3⟩,
          ⟨.eof, false, "", 3, 3⟩] := by
  decide +kernel

end Lexer

end Snbt
