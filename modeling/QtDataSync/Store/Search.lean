import QtDataSync.Lib.Wildcard
import QtDataSync.Store.Representation

/-!
# Store.Search — the patterns of `LocalStore::find`

`find` translates a query to a pattern for `LIKE .. ESCAPE '\'`.  The replacements of the source work on the text from
left to right, and both the query and its translation fall into units: a backslash with the character after it, or a
character alone.  In the wildcard mode the backslash before `%` and `_` is escaped as if it stood for itself, and the
one before any other character is left for `LIKE`, which says nothing about it.
-/

namespace QtDataSync

/-- `DataStore::SearchMode`. -/
inductive SearchMode where
  | RegexpMode
  | WildcardMode
  | ContainsMode
  | StartsWithMode
  | EndsWithMode
deriving DecidableEq, Repr

namespace Search

open Wildcard

/-! ## The translation -/

/-- `QString::replace` of a character. -/
def replace (before : Char) (after s : List Char) : List Char :=
  s.flatMap fun c => if c = before then after else [c]

/-- How many backslashes `((?:\\\\)*)c` matches before `c`. -/
def matchRun (c : Char) : List Char → Option ℕ
  | '\\' :: '\\' :: s => (matchRun c s).map (· + 2)
  | x :: _ => if x = c then some 0 else none
  | [] => none

/-- `QString::replace` of `((?<!\\)(?:\\\\)*)c` by `\1r`: `behind` tells whether the last character was a backslash, and
`inside` how many characters of the current match are left, of which the last one is replaced. -/
def replaceUnescaped (c r : Char) : (behind : Bool) → (inside : ℕ) → List Char → List Char
  | _, _, [] => []
  | _, n + 1, x :: s => (if n = 0 then r else x) :: replaceUnescaped c r (x == '\\') n s
  | behind, 0, x :: s =>
    match if behind then none else matchRun c (x :: s) with
    | some n => (if n = 0 then r else x) :: replaceUnescaped c r (x == '\\') n s
    | none => x :: replaceUnescaped c r (x == '\\') 0 s

/-- The `searchQuery` that `LocalStore::find` binds. -/
def searchQuery (mode : SearchMode) (query : List Char) : List Char :=
  let query := if mode ≠ .RegexpMode ∧ mode ≠ .WildcardMode then replace '\\' ['\\', '\\'] query else query
  let query := if mode ≠ .RegexpMode then replace '_' ['\\', '_'] (replace '%' ['\\', '%'] query) else query
  match mode with
  | .WildcardMode => replaceUnescaped '?' '_' false 0 (replaceUnescaped '*' '%' false 0 query)
  | .ContainsMode => '%' :: (query ++ ['%'])
  | .StartsWithMode => query ++ ['%']
  | .EndsWithMode => '%' :: query
  | .RegexpMode => query

/-- The pattern of `LIKE ? ESCAPE '\'`, if the escape character only stands before `%`, `_` and itself. -/
def likePattern : List Char → Option (List (Wildcard Char))
  | [] => some []
  | '\\' :: '\\' :: s => (likePattern s).map (lit '\\' :: ·)
  | '\\' :: '%' :: s => (likePattern s).map (lit '%' :: ·)
  | '\\' :: '_' :: s => (likePattern s).map (lit '_' :: ·)
  | c :: s =>
    if c = '\\' then none
    else (likePattern s).map ((if c = '%' then any else if c = '_' then one else lit c) :: ·)

/-- `Id LIKE ? ESCAPE '\'`; what `other` says of escape characters elsewhere is not documented. -/
def like (other : List Char → List Char → Bool) (pattern id : List Char) : Bool :=
  match likePattern pattern with
  | some p => Matches Char.toLower p id
  | none => other pattern id

/-! ## What the modes mean -/

/-- A query as a glob: `*` is any sequence, `?` any character, and a backslash makes the next character literal. -/
def globPattern : List Char → List (Wildcard Char)
  | [] => []
  | '\\' :: c :: s => lit c :: globPattern s
  | '*' :: s => any :: globPattern s
  | '?' :: s => one :: globPattern s
  | c :: s => lit c :: globPattern s

/-- What a search should find, regardless of the case of ASCII letters. -/
def Finds (regexp : List Char → List Char → Bool) : SearchMode → (query id : List Char) → Prop
  | .RegexpMode, query, id => regexp query id
  | .WildcardMode, query, id => Matches Char.toLower (globPattern query) id
  | .ContainsMode, query, id => query.map Char.toLower <:+: id.map Char.toLower
  | .StartsWithMode, query, id => query.map Char.toLower <+: id.map Char.toLower
  | .EndsWithMode, query, id => query.map Char.toLower <:+ id.map Char.toLower

/-- Every backslash of the query that is not itself escaped stands before a backslash. -/
def OnlyEscapesItself : List Char → Prop
  | [] => True
  | '\\' :: '\\' :: s => OnlyEscapesItself s
  | c :: s => c ≠ '\\' ∧ OnlyEscapesItself s

/-! ## Units of a query -/

/-- Escaped characters, single characters, and a backslash at the end. -/
theorem units_induction {P : List Char → Prop} (nil : P []) (last : P ['\\'])
    (pair : ∀ c s, P s → P ('\\' :: c :: s)) (single : ∀ c s, c ≠ '\\' → P s → P (c :: s)) (s : List Char) : P s := by
  induction hn : s.length using Nat.strong_induction_on generalizing s with
  | _ n ih =>
    subst hn
    rcases s with _ | ⟨c, s⟩
    · exact nil
    · by_cases hc : c = '\\'
      · subst hc
        rcases s with _ | ⟨x, s⟩
        · exact last
        · exact pair x s (ih s.length (by rw [List.length_cons, List.length_cons]; omega) s rfl)
      · exact single c s hc (ih s.length (by rw [List.length_cons]; omega) s rfl)

theorem replace_cons (before : Char) (after : List Char) (c : Char) (s : List Char) :
    replace before after (c :: s) = (if c = before then after else [c]) ++ replace before after s := rfl

section

variable {c r : Char}

theorem replaceUnescaped_single {x : Char} (hx : x ≠ '\\') (s : List Char) :
    replaceUnescaped c r false 0 (x :: s) = (if x = c then r else x) :: replaceUnescaped c r false 0 s := by
  have hrun : matchRun c (x :: s) = if x = c then some 0 else none := by
    rw [matchRun]
    rintro _ rfl
    exact absurd rfl hx
  rw [replaceUnescaped, if_neg Bool.false_ne_true, hrun, beq_false_of_ne hx]
  split_ifs <;> rfl

/-- Where a match begins, the character behind does not matter, and elsewhere it is only seen by a match. -/
theorem replaceUnescaped_of_matchRun {s : List Char} {behind : Bool} :
    replaceUnescaped c r behind ((matchRun c s).elim 0 (· + 1)) s = replaceUnescaped c r false 0 s := by
  rcases s with _ | ⟨x, s⟩
  · rcases hm : (matchRun c []).elim 0 (· + 1) with _ | n <;> rfl
  · rcases hm : matchRun c (x :: s) with _ | n
    · rw [Option.elim_none, replaceUnescaped, replaceUnescaped, hm]
      rcases behind with _ | _ <;> rfl
    · rw [Option.elim_some, replaceUnescaped, replaceUnescaped, hm]
      rfl

theorem replaceUnescaped_pair (hc : c ≠ '\\') (y : Char) (s : List Char) :
    replaceUnescaped c r false 0 ('\\' :: y :: s) = '\\' :: y :: replaceUnescaped c r false 0 s := by
  by_cases hy : y = '\\'
  · subst hy
    have hrun : matchRun c ('\\' :: '\\' :: s) = (matchRun c s).map (· + 2) := rfl
    rw [replaceUnescaped, if_neg Bool.false_ne_true, hrun, ← replaceUnescaped_of_matchRun]
    rcases matchRun c s with _ | n
    · rfl
    · rfl
  · have hrun : matchRun c ('\\' :: y :: s) = none := by
      rw [matchRun, if_neg hc.symm]
      rintro _ _ h
      exact absurd (List.cons.inj h).1 hy
    rw [replaceUnescaped, if_neg Bool.false_ne_true, hrun]
    show '\\' :: replaceUnescaped c r true 0 (y :: s) = _
    rw [replaceUnescaped, if_pos rfl, beq_false_of_ne hy]

theorem replaceUnescaped_last (hc : c ≠ '\\') : replaceUnescaped c r false 0 ['\\'] = ['\\'] := by
  have hrun : matchRun c ['\\'] = none := by
    rw [matchRun, if_neg hc.symm]
    nofun
  rw [replaceUnescaped, if_neg Bool.false_ne_true, hrun]
  rfl

end

/-! ## The wildcard mode, unit by unit -/

/-- A query with `%` and `_` escaped. -/
def escaped (query : List Char) : List Char := replace '_' ['\\', '_'] (replace '%' ['\\', '%'] query)

theorem escaped_cons (c : Char) (s : List Char) :
    escaped (c :: s) = (if c = '%' ∨ c = '_' then ['\\', c] else [c]) ++ escaped s := by
  rw [escaped, replace_cons]
  by_cases h1 : c = '%'
  · subst h1
    rfl
  · by_cases h2 : c = '_'
    · subst h2
      rfl
    · rw [if_neg h1, if_neg (by simp [h1, h2]), List.singleton_append, replace_cons, if_neg h2]
      rfl

/-- The translation of a wildcard query. -/
def wildcardQuery (query : List Char) : List Char := searchQuery .WildcardMode query

theorem wildcardQuery_eq (query : List Char) : wildcardQuery query =
    replaceUnescaped '?' '_' false 0 (replaceUnescaped '*' '%' false 0 (escaped query)) := rfl

theorem wildcardQuery_last : wildcardQuery ['\\'] = ['\\'] := by
  have hescaped : escaped ['\\'] = ['\\'] := rfl
  rw [wildcardQuery_eq, hescaped, replaceUnescaped_last (by decide), replaceUnescaped_last (by decide)]

/-- Wildcards are replaced, and what is none is literal. -/
theorem wildcardQuery_single {c : Char} (hc : c ≠ '\\') (s : List Char) : wildcardQuery (c :: s) =
    (if c = '%' ∨ c = '_' then ['\\', c] else if c = '*' then ['%'] else if c = '?' then ['_'] else [c]) ++
      wildcardQuery s := by
  rw [wildcardQuery_eq, wildcardQuery_eq, escaped_cons]
  split_ifs with h1 h2 h3
  · rw [List.cons_append, List.singleton_append, replaceUnescaped_pair (by decide), replaceUnescaped_pair (by decide)]
    rfl
  · subst h2
    rw [List.singleton_append, replaceUnescaped_single hc, if_pos rfl, replaceUnescaped_single (by decide),
      if_neg (by decide)]
    rfl
  · subst h3
    rw [List.singleton_append, replaceUnescaped_single hc, if_neg (by decide), replaceUnescaped_single hc, if_pos rfl]
    rfl
  · rw [List.singleton_append, replaceUnescaped_single hc, if_neg h2, replaceUnescaped_single hc, if_neg h3]
    rfl

/-- An escaped character; `%` and `_` lose the escape to the backslash that is put before them. -/
theorem wildcardQuery_pair (c : Char) (s : List Char) : wildcardQuery ('\\' :: c :: s) =
    (if c = '%' ∨ c = '_' then ['\\', '\\', c] else ['\\', c]) ++ wildcardQuery s := by
  rw [wildcardQuery_eq, wildcardQuery_eq, escaped_cons, if_neg (by decide), List.singleton_append, escaped_cons]
  split_ifs with h
  · rw [List.cons_append, List.singleton_append, replaceUnescaped_pair (by decide), replaceUnescaped_pair (by decide)]
    rcases h with rfl | rfl
    · rw [replaceUnescaped_single (by decide), if_neg (by decide), replaceUnescaped_single (by decide),
        if_neg (by decide)]
      rfl
    · rw [replaceUnescaped_single (by decide), if_neg (by decide), replaceUnescaped_single (by decide),
        if_neg (by decide)]
      rfl
  · rw [List.singleton_append, replaceUnescaped_pair (by decide), replaceUnescaped_pair (by decide)]
    rfl

/-! ### What `LIKE` makes of it -/

theorem likePattern_single {c : Char} (hc : c ≠ '\\') (s : List Char) : likePattern (c :: s) =
    (likePattern s).map ((if c = '%' then any else if c = '_' then one else lit c) :: ·) := by
  rw [likePattern, if_neg hc]
  · rintro _ rfl
    exact absurd rfl hc
  · rintro _ rfl
    exact absurd rfl hc
  · rintro _ rfl
    exact absurd rfl hc

theorem likePattern_pair (c : Char) (s : List Char) : likePattern ('\\' :: c :: s) =
    if c = '\\' ∨ c = '%' ∨ c = '_' then (likePattern s).map (lit c :: ·) else none := by
  by_cases h : c = '\\' ∨ c = '%' ∨ c = '_'
  · rw [if_pos h]
    rcases h with rfl | rfl | rfl <;> rfl
  · rw [not_or, not_or] at h
    rw [likePattern, if_pos rfl, if_neg (by simp [h])]
    all_goals
      rintro _ _ he
      simp_all

theorem globPattern_pair (c : Char) (s : List Char) : globPattern ('\\' :: c :: s) = lit c :: globPattern s := rfl

theorem globPattern_single {c : Char} (hc : c ≠ '\\') (s : List Char) : globPattern (c :: s) =
    (if c = '*' then any else if c = '?' then one else lit c) :: globPattern s := by
  by_cases h1 : c = '*'
  · subst h1
    rfl
  · by_cases h2 : c = '?'
    · subst h2
      rfl
    · rw [if_neg h1, if_neg h2, globPattern]
      all_goals simp_all

theorem onlyEscapesItself_pair {c : Char} {s : List Char} :
    OnlyEscapesItself ('\\' :: c :: s) ↔ c = '\\' ∧ OnlyEscapesItself s := by
  by_cases hc : c = '\\'
  · subst hc
    exact (and_iff_right rfl).symm
  · rw [OnlyEscapesItself]
    · simp [hc]
    · rintro _ _ h
      exact absurd (List.cons.inj h).1 hc

theorem onlyEscapesItself_single {c : Char} (hc : c ≠ '\\') {s : List Char} :
    OnlyEscapesItself (c :: s) ↔ OnlyEscapesItself s := by
  rw [OnlyEscapesItself]
  · exact and_iff_right hc
  · rintro _ rfl
    exact absurd rfl hc

/-- Characters that are not escaped are translated as they are meant. -/
theorem likePattern_wildcardQuery_single {c : Char} (hc : c ≠ '\\') (s : List Char) :
    likePattern (wildcardQuery (c :: s)) =
      (likePattern (wildcardQuery s)).map ((if c = '*' then any else if c = '?' then one else lit c) :: ·) := by
  rw [wildcardQuery_single hc]
  by_cases h1 : c = '%' ∨ c = '_'
  · rw [if_pos h1, List.cons_append, List.singleton_append, likePattern_pair, if_pos (Or.inr h1)]
    rcases h1 with rfl | rfl <;> rfl
  · rw [if_neg h1]
    split_ifs with h2 h3
    · rw [List.singleton_append, likePattern_single (by decide)]
      rfl
    · rw [List.singleton_append, likePattern_single (by decide)]
      rfl
    · rw [not_or] at h1
      rw [List.singleton_append, likePattern_single hc, if_neg h1.1, if_neg h1.2]

/-- A query that escapes nothing but backslashes is translated as it is meant. -/
theorem likePattern_wildcardQuery {query : List Char} (h : OnlyEscapesItself query) :
    likePattern (wildcardQuery query) = some (globPattern query) := by
  induction query using units_induction with
  | nil => rfl
  | last => exact absurd rfl h.1
  | pair c s ih =>
    obtain ⟨rfl, hs⟩ := onlyEscapesItself_pair.mp h
    rw [wildcardQuery_pair, if_neg (by decide), List.cons_append, List.singleton_append, likePattern_pair,
      if_pos (Or.inl rfl), ih hs]
    rfl
  | single c s hc ih =>
    rw [likePattern_wildcardQuery_single hc, ih ((onlyEscapesItself_single hc).mp h), globPattern_single hc]
    rfl

/-- The character is a backslash for `LIKE`. -/
def isBackslash (c : Char) : Bool := c.toLower == '\\'

/-- Other queries have no documented translation, or one that asks for more backslashes than they mean. -/
theorem likePattern_wildcardQuery_le (query : List Char) {p : List (Wildcard Char)}
    (h : likePattern (wildcardQuery query) = some p) :
    (literals (globPattern query)).countP isBackslash ≤ (literals p).countP isBackslash ∧
      (¬ OnlyEscapesItself query →
        (literals (globPattern query)).countP isBackslash < (literals p).countP isBackslash) := by
  induction query using units_induction generalizing p with
  | nil => exact ⟨Nat.zero_le _, fun hno => absurd trivial hno⟩
  | last =>
    rw [wildcardQuery_last] at h
    exact nomatch h
  | pair c s ih =>
    rw [wildcardQuery_pair] at h
    rw [globPattern_pair, literals, List.countP_cons]
    by_cases hc : c = '%' ∨ c = '_'
    · -- the backslash is literal now, and the character a wildcard
      rw [if_pos hc, List.cons_append, List.cons_append, List.singleton_append, likePattern_pair, if_pos (Or.inl rfl),
        Option.map_eq_some_iff] at h
      obtain ⟨p', hp', rfl⟩ := h
      have hwild : ∃ p'', likePattern (wildcardQuery s) = some p'' ∧ literals p' = literals p'' ∧
          isBackslash c = false := by
        rcases hc with rfl | rfl
        · rw [likePattern_single (by decide), Option.map_eq_some_iff] at hp'
          obtain ⟨p'', hp'', rfl⟩ := hp'
          exact ⟨p'', hp'', rfl, by decide⟩
        · rw [likePattern_single (by decide), Option.map_eq_some_iff] at hp'
          obtain ⟨p'', hp'', rfl⟩ := hp'
          exact ⟨p'', hp'', rfl, by decide⟩
      obtain ⟨p'', hp'', hlit, hb⟩ := hwild
      have hle := (ih hp'').1
      rw [literals, List.countP_cons, hlit, hb]
      have hslash : isBackslash '\\' = true := by decide
      simp only [hslash, Bool.false_eq_true, if_false, if_true]
      exact ⟨by omega, fun _ => by omega⟩
    · rw [if_neg hc, List.cons_append, List.singleton_append, likePattern_pair] at h
      split_ifs at h with hesc
      · obtain rfl := hesc.resolve_right hc
        rw [Option.map_eq_some_iff] at h
        obtain ⟨p', hp', rfl⟩ := h
        rw [literals, List.countP_cons, onlyEscapesItself_pair, and_iff_right rfl]
        obtain ⟨hle, hlt⟩ := ih hp'
        exact ⟨by omega, fun hno => by have := hlt hno; omega⟩
  | single c s hc ih =>
    rw [likePattern_wildcardQuery_single hc, Option.map_eq_some_iff] at h
    obtain ⟨p', hp', rfl⟩ := h
    obtain ⟨hle, hlt⟩ := ih hp'
    rw [globPattern_single hc, onlyEscapesItself_single hc]
    split_ifs
    · exact ⟨hle, hlt⟩
    · exact ⟨hle, hlt⟩
    · rw [literals, literals, List.countP_cons, List.countP_cons]
      exact ⟨by omega, fun hno => by have := hlt hno; omega⟩

/-! ## What is selected -/

/-- Escaped text is literal for `LIKE`, whatever comes after it. -/
theorem likePattern_escaped (query s : List Char) :
    likePattern (escaped (replace '\\' ['\\', '\\'] query) ++ s) = (likePattern s).map (query.map lit ++ ·) := by
  induction query with
  | nil => simp [escaped, replace]
  | cons c query ih =>
    rw [replace_cons]
    split_ifs with hc
    · subst hc
      rw [List.cons_append, List.singleton_append, escaped_cons, if_neg (by decide), escaped_cons, if_neg (by decide)]
      simp only [List.cons_append, List.nil_append]
      rw [likePattern_pair, if_pos (Or.inl rfl), ih, Option.map_map]
      rfl
    · rw [List.singleton_append, escaped_cons]
      split_ifs with h
      · simp only [List.cons_append, List.nil_append]
        rw [likePattern_pair, if_pos (Or.inr h), ih, Option.map_map]
        rfl
      · rw [not_or] at h
        simp only [List.cons_append, List.nil_append]
        rw [likePattern_single hc, if_neg h.1, if_neg h.2, ih, Option.map_map]
        rfl

/-- The condition on the id in the query of `find`. -/
def selects (other regexp : List Char → List Char → Bool) (mode : SearchMode) (query id : List Char) : Bool :=
  if mode = .RegexpMode then regexp (searchQuery mode query) id else like other (searchQuery mode query) id

variable {other regexp : List Char → List Char → Bool}

theorem like_of_likePattern {pattern id : List Char} {p : List (Wildcard Char)} (h : likePattern pattern = some p) :
    like other pattern id = Matches Char.toLower p id := by
  rw [like, h]

/-- The modes that take the query literally always mean what is documented. -/
theorem selects_iff {mode : SearchMode} {query id : List Char} (h : mode = .WildcardMode → OnlyEscapesItself query) :
    selects other regexp mode query id ↔ Finds regexp mode query id := by
  have hliteral : likePattern (escaped (replace '\\' ['\\', '\\'] query)) = some (query.map lit) := by
    have happ := likePattern_escaped query []
    rw [List.append_nil] at happ
    rw [happ]
    simp [likePattern]
  have hopen : likePattern (escaped (replace '\\' ['\\', '\\'] query) ++ ['%']) = some (query.map lit ++ [any]) :=
    likePattern_escaped query ['%']
  rcases mode with _ | _ | _ | _ | _
  · rfl
  · show like other (wildcardQuery query) id ↔ _
    rw [like_of_likePattern (likePattern_wildcardQuery (h rfl))]
    rfl
  · show like other ('%' :: (escaped (replace '\\' ['\\', '\\'] query) ++ ['%'])) id ↔ _
    rw [like_of_likePattern (p := any :: (query.map lit ++ [any])), matches_infix]
    · rfl
    · rw [likePattern_single (by decide), hopen]
      rfl
  · show like other (escaped (replace '\\' ['\\', '\\'] query) ++ ['%']) id ↔ _
    rw [like_of_likePattern hopen, matches_prefix]
    rfl
  · show like other ('%' :: escaped (replace '\\' ['\\', '\\'] query)) id ↔ _
    rw [like_of_likePattern (p := any :: query.map lit), matches_suffix]
    · rfl
    · rw [likePattern_single (by decide), hliteral]
      rfl

/-- A wildcard query that escapes something else misses an id, unless `LIKE` happens to do more than is documented. -/
theorem exists_not_selects {query : List Char} (h : ¬ OnlyEscapesItself query) : ∃ other id,
    Finds regexp .WildcardMode query id ∧ ¬ selects other regexp .WildcardMode query id := by
  refine ⟨fun _ _ => false, shortest 'a' (globPattern query), matches_shortest _ _, ?_⟩
  show ¬ (like (fun _ _ => false) (wildcardQuery query) (shortest 'a' (globPattern query)) = true)
  rcases hp : likePattern (wildcardQuery query) with _ | p
  · rw [like, hp]
    exact Bool.false_ne_true
  · rw [like_of_likePattern hp]
    intro hm
    -- the pattern asks for more backslashes than the shortest match of the glob has
    have hlt := (likePattern_wildcardQuery_le query hp).2 h
    have hle := countP_literals_le (f := (· == '\\')) hm
    have hshort := countP_shortest (a := 'a') (f := isBackslash) (by decide) (globPattern query)
    have hsame : ((· == '\\') ∘ Char.toLower : Char → Bool) = isBackslash := rfl
    rw [hsame] at hle
    omega

end Search

/-! ## Queries over a type -/

section

variable {Data Checksum : Type} (env : Env) (size : Data → ℕ) (typeName : QByteArray)

/-- `scan` are the ids of the type, in the order in which the database comes across them. -/
structure FileStore.Scans (s : FileStore Data Checksum) (typeName : QByteArray) (scan : List String) : Prop where
  nodup : scan.Nodup
  complete : ∀ id, s.rows ⟨typeName, id⟩ ≠ none → id ∈ scan

/-- The rows of `SELECT .. FROM DataIndex WHERE Type = ? AND p`. -/
def FileStore.selected (s : FileStore Data Checksum) (typeName : QByteArray) (scan : List String)
    (p : String → FileRow Checksum → Bool) : List (String × FileRow Checksum) :=
  scan.filterMap fun id => ((s.rows ⟨typeName, id⟩).filter (p id)).map fun row => (id, row)

def selectRows (scan : List String) (p : String → FileRow Checksum → Bool) :
    StoreM Data Checksum (List (String × FileRow Checksum)) := do
  check env (typeKey typeName) .query
  return (← get).selected typeName scan p

/-- The loop that reads the objects of the selected rows, with their keys. -/
def readRows : List (String × FileRow Checksum) → StoreM Data Checksum (List (ObjectKey × Data))
  | [] => pure []
  | (id, row) :: rows => do
    let json ← readJson env ⟨typeName, id⟩ (row.file.getD "")
    let objects ← readRows rows
    return (⟨typeName, id⟩, json) :: objects

/-- What `loadAll` and `find` do with the rows they select. -/
def readAll (scan : List String) (p : String → FileRow Checksum → Bool) :
    StoreM Data Checksum (List (ObjectKey × Data)) := do
  beginTransaction env (typeKey typeName)
  try
    let rows ← selectRows env typeName scan p
    let objects ← readRows env typeName rows
    objects.forM fun x => putCached size x.1 x.2
    commit env (typeKey typeName)
    pure objects
  catch e =>
    rollback
    throw e

/-- `LocalStore::find`. -/
def find (other regexp : List Char → List Char → Bool) (scan : List String) (query : String) (mode : SearchMode) :
    StoreM Data Checksum (List (ObjectKey × Data)) :=
  readAll env size typeName scan fun id row =>
    Search.selects other regexp mode query.toList id.toList && row.file.isSome

variable {env size typeName}
variable {s t : FileStore Data Checksum} {scan : List String} {p : String → FileRow Checksum → Bool}

theorem FileStore.Scans.mem_selected (h : s.Scans typeName scan) {id : String} {row : FileRow Checksum} :
    (id, row) ∈ s.selected typeName scan p ↔ s.rows ⟨typeName, id⟩ = some row ∧ p id row = true := by
  rw [FileStore.selected, List.mem_filterMap]
  constructor
  · rintro ⟨id', -, hid⟩
    obtain ⟨row', hrow, he⟩ := Option.map_eq_some_iff.mp hid
    rw [Prod.mk.injEq] at he
    obtain ⟨rfl, rfl⟩ := he
    exact Option.filter_eq_some_iff.mp hrow
  · rintro ⟨hrow, hp⟩
    refine ⟨id, h.complete id (by rw [hrow]; exact Option.some_ne_none row), ?_⟩
    rw [hrow, Option.filter_some_pos hp]
    rfl

/-- The objects that are read for the rows. -/
def FileStore.Reads (s : FileStore Data Checksum) (typeName : QByteArray) (rows : List (String × FileRow Checksum))
    (objects : List (ObjectKey × Data)) : Prop :=
  List.Forall₂ (fun x o => o.1 = ⟨typeName, x.1⟩ ∧ s.files (filePath o.1 (x.2.file.getD "")) = some (some o.2))
    rows objects

theorem runs_readRows {rows : List (String × FileRow Checksum)}
    {Q : List (ObjectKey × Data) → FileStore Data Checksum → Prop} {E : StoreException → FileStore Data Checksum → Prop}
    (hQ : ∀ objects, s.Reads typeName rows objects → Q objects s)
    (hE : ∀ x ∈ rows, ∀ step, env.fails step = true ∨
      (∀ data, s.files (filePath ⟨typeName, x.1⟩ (x.2.file.getD "")) ≠ some (some data)) →
      E (.localStore ⟨typeName, x.1⟩ step) s) : Runs (readRows env typeName rows) s Q E := by
  induction rows generalizing Q with
  | nil => exact runs_pure (hQ [] .nil)
  | cons x rows ih =>
    apply runs_bind
    refine runs_readJson (fun json hjson => ?_) (hE x List.mem_cons_self)
    apply runs_bind
    refine ih (fun objects h => ?_) fun y hy => hE y (List.mem_cons_of_mem x hy)
    exact runs_pure (hQ _ (.cons ⟨rfl, hjson⟩ h))

/-- The cache with all these objects. -/
def FileStore.withCached (s : FileStore Data Checksum) (size : Data → ℕ) (objects : List (ObjectKey × Data)) :
    FileStore Data Checksum :=
  { s with cache := s.cache.map fun c => objects.foldl (fun c x => c.insert x.1 x.2 (size x.2)) c }

theorem runs_putCached {objects : List (ObjectKey × Data)} {Q : Unit → FileStore Data Checksum → Prop}
    {E : StoreException → FileStore Data Checksum → Prop} (hQ : Q () (s.withCached size objects)) :
    Runs (objects.forM fun x => putCached size x.1 x.2) s Q E := by
  induction objects generalizing s with
  | nil =>
    have hs : s.withCached size [] = s := by
      rw [FileStore.withCached]
      simp
    rw [hs] at hQ
    exact runs_pure hQ
  | cons x objects ih =>
    apply runs_bind
    apply runs_modify
    apply ih
    have hs : FileStore.withCached { s with cache := s.cache.map fun c => c.insert x.1 x.2 (size x.2) } size objects =
        s.withCached size (x :: objects) := by
      simp [FileStore.withCached, Function.comp_def]
    rw [hs]
    exact hQ

/-- Reading the rows of a type changes the cache only. -/
theorem runs_readAll {Q : List (ObjectKey × Data) → FileStore Data Checksum → Prop}
    {E : StoreException → FileStore Data Checksum → Prop} (hs : s.transaction = none)
    (hQ : ∀ objects, s.Reads typeName (s.selected typeName scan p) objects → Q objects (s.withCached size objects))
    (hE : ∀ key step, env.fails step = true ∨ (∃ x ∈ s.selected typeName scan p, ∀ data,
      s.files (filePath ⟨typeName, x.1⟩ (x.2.file.getD "")) ≠ some (some data)) → E (.localStore key step) s)
    (hC : ∀ objects, env.fails .commit = true → s.Reads typeName (s.selected typeName scan p) objects →
      E (.localStore (typeKey typeName) .commit) (s.withCached size objects)) :
    Runs (readAll env size typeName scan p) s Q E := by
  obtain ⟨index, tx, files, cache, emitted⟩ := s
  obtain rfl : tx = none := hs
  apply runs_bind
  apply runs_beginTransaction _ fun h => hE _ _ (Or.inl h)
  apply runs_orRollback
  apply runs_bind
  apply runs_bind
  refine runs_check ?_ fun h => hE _ _ (Or.inl h)
  apply runs_bind
  apply runs_get
  apply runs_pure
  apply runs_bind
  refine runs_readRows (fun objects hread => ?_) fun x hx step h => hE _ _ (h.imp id fun h => ⟨x, hx, h⟩)
  apply runs_bind
  apply runs_putCached
  apply runs_bind
  refine runs_commit ?_ fun h => hC objects h hread
  exact runs_pure (hQ objects hread)

theorem FileStore.Reads.mem_iff {rows : List (String × FileRow Checksum)} {objects : List (ObjectKey × Data)}
    (h : s.Reads typeName rows objects) {id : String} {name : String} {data : Data}
    (hrow : ∀ row, (id, row) ∈ rows → row.file = some name)
    (hfile : s.files (filePath ⟨typeName, id⟩ name) = some (some data)) :
    (⟨typeName, id⟩, data) ∈ objects ↔ ∃ row, (id, row) ∈ rows := by
  induction h with
  | nil => simp
  | @cons x o rows objects hxo _ ih =>
    rw [List.mem_cons, ih fun row hr => hrow row (List.mem_cons_of_mem x hr)]
    obtain ⟨id', row'⟩ := x
    obtain ⟨k, json⟩ := o
    obtain ⟨rfl, hjson⟩ := hxo
    constructor
    · rintro (he | ⟨row, hr⟩)
      · rw [Prod.mk.injEq, ObjectKey.mk.injEq] at he
        exact ⟨row', by rw [he.1.2]; exact List.mem_cons_self⟩
      · exact ⟨row, List.mem_cons_of_mem _ hr⟩
    · rintro ⟨row, hr⟩
      rcases List.mem_cons.mp hr with he | hr
      · rw [Prod.mk.injEq] at he
        obtain ⟨rfl, rfl⟩ := he
        have hname := hrow row List.mem_cons_self
        rw [hname, Option.getD_some, hfile, Option.some.injEq, Option.some.injEq] at hjson
        exact Or.inl (by rw [hjson])
      · exact Or.inr ⟨row, hr⟩

/-- What `find` returns of the stored objects. -/
theorem find_ok {other regexp : List Char → List Char → Bool} {query : String} {mode : SearchMode}
    {objects : List (ObjectKey × Data)} (hs : s.transaction = none) (hscan : s.Scans typeName scan)
    (h : exec (find env size typeName other regexp scan query mode) s = (.ok objects, t)) {id name : String} {data : Data}
    (hname : s.fileOf ⟨typeName, id⟩ = some name) (hfile : s.files (filePath ⟨typeName, id⟩ name) = some (some data)) :
    (⟨typeName, id⟩, data) ∈ objects ↔ Search.selects other regexp mode query.toList id.toList = true := by
  have hruns : Runs (find env size typeName other regexp scan query mode) s
      (fun objects _ => s.Reads typeName (s.selected typeName scan fun id row =>
        Search.selects other regexp mode query.toList id.toList && row.file.isSome) objects) (fun _ _ => True) :=
    runs_readAll hs (fun _ hread => hread) (fun _ _ _ => trivial) fun _ _ _ => trivial
  obtain ⟨row, hrow, hrowfile⟩ := Option.bind_eq_some_iff.mp hname
  have hrows : s.rows ⟨typeName, id⟩ = some row := by
    rw [FileStore.rows, hs]
    exact hrow
  have hname' : ∀ row', (id, row') ∈ s.selected typeName scan (fun id row =>
      Search.selects other regexp mode query.toList id.toList && row.file.isSome) → row'.file = some name := by
    intro row' hr
    rw [hscan.mem_selected, hrows, Option.some.injEq] at hr
    rw [← hr.1]
    exact hrowfile
  rw [(hruns.ok h).mem_iff hname' hfile]
  simp only [hscan.mem_selected, hrows, Option.some.injEq, Bool.and_eq_true]
  constructor
  · rintro ⟨-, -, hsel, -⟩
    exact hsel
  · exact fun hsel => ⟨row, rfl, hsel, by rw [hrowfile]; rfl⟩

end

namespace Search

open Wildcard

variable {Data Checksum : Type}

/-- Whatever is stored, and whatever `LIKE` makes of undocumented escapes: `find` returns an object if and only if its id
is what the query means. -/
def Faithful (Data Checksum : Type) (mode : SearchMode) (query : String) : Prop :=
  ∀ (other regexp : List Char → List Char → Bool) (env : Env) (size : Data → ℕ) (s t : FileStore Data Checksum)
    (typeName : QByteArray) (scan : List String) (objects : List (ObjectKey × Data)),
    s.transaction = none → s.Scans typeName scan →
    exec (find env size typeName other regexp scan query mode) s = (.ok objects, t) →
    ∀ id name data, s.fileOf ⟨typeName, id⟩ = some name → s.files (filePath ⟨typeName, id⟩ name) = some (some data) →
      ((⟨typeName, id⟩, data) ∈ objects ↔ Finds regexp mode query.toList id.toList)

/-- A store with one object. -/
def single (id : String) (data : Data) : FileStore Data Checksum :=
  ⟨Function.update (fun _ => none) ⟨[], id⟩ (some ⟨1, some "f", none, true⟩), none, fun _ => some (some data), none, []⟩

theorem dataIndex_single (id : String) (data : Data) : (single id data : FileStore Data Checksum).dataIndex =
    Function.update (fun _ => none) ⟨[], id⟩ (some ⟨1, some "f", none, true⟩) := rfl

/-- A query that misses an id is not translated faithfully. -/
theorem not_faithful [Nonempty Data] {other : List Char → List Char → Bool} {mode : SearchMode} {query : String}
    {id : List Char} (hid : Finds (fun _ _ => false) mode query.toList id)
    (hno : ¬ selects other (fun _ _ => false) mode query.toList id) : ¬ Faithful Data Checksum mode query := by
  obtain ⟨data⟩ := ‹Nonempty Data›
  intro h
  have hrow : ∀ k, (single (String.ofList id) data : FileStore Data Checksum).dataIndex k ≠ none →
      k = ⟨[], String.ofList id⟩ := by
    intro k hk
    by_contra hne
    rw [dataIndex_single, Function.update_of_ne hne] at hk
    exact hk rfl
  have hscan : (single (String.ofList id) data : FileStore Data Checksum).Scans [] [String.ofList id] := by
    refine ⟨List.nodup_singleton _, fun id' hid' => ?_⟩
    have hkey := hrow _ hid'
    rw [ObjectKey.mk.injEq] at hkey
    rw [hkey.2]
    exact List.mem_cons_self
  have hruns : Runs (find Env.sound (fun _ => 1) [] other (fun _ _ => false) [String.ofList id] query mode)
      (single (String.ofList id) data : FileStore Data Checksum) (fun _ _ => True) (fun _ _ => False) := by
    refine runs_readAll rfl (fun _ _ => trivial) ?_ fun _ hfail _ => Bool.false_ne_true hfail
    rintro _ _ (hfail | ⟨x, -, hx⟩)
    · exact Bool.false_ne_true hfail
    · exact hx data rfl
  rcases hx : exec (find Env.sound (fun _ => 1) [] other (fun _ _ => false) [String.ofList id] query mode)
      (single (String.ofList id) data : FileStore Data Checksum) with ⟨e | objects, t⟩
  · exact hruns.error hx
  · have hname : (single (String.ofList id) data : FileStore Data Checksum).fileOf ⟨[], String.ofList id⟩ = some "f" := by
      rw [FileStore.fileOf, dataIndex_single, Function.update_self]
      rfl
    have hsel := h other _ _ _ _ _ _ _ objects rfl hscan hx _ _ data hname rfl
    rw [find_ok rfl hscan hx hname rfl, String.toList_ofList] at hsel
    exact hno (hsel.mpr hid)

/-- **Search patterns.**  The modes that take the query literally are faithful to it, and the wildcard mode is if and
only if the query escapes nothing but backslashes. -/
theorem faithful_iff [Nonempty Data] {mode : SearchMode} (hmode : mode ≠ .RegexpMode) (query : String) :
    Faithful Data Checksum mode query ↔ (mode = .WildcardMode → OnlyEscapesItself query.toList) := by
  constructor
  · rintro h rfl
    by_contra hno
    have hex : ∃ other id, Finds (fun _ _ => false) .WildcardMode query.toList id ∧
        ¬ selects other (fun _ _ => false) .WildcardMode query.toList id := exists_not_selects hno
    obtain ⟨other, id, hid, hmiss⟩ := hex
    exact not_faithful hid hmiss h
  · intro h other regexp env size s t typeName scan objects hs hscan hx id name data hname hfile
    rw [find_ok hs hscan hx hname hfile]
    exact selects_iff h

/-- `_` and `%` are found where they are searched for. -/
theorem faithful_contains : Faithful ℕ ℕ .ContainsMode "100%_" :=
  (faithful_iff (by decide) "100%_").mpr nofun

/-- A query for an escaped `%` does not find it. -/
theorem not_faithful_escaped : (∀ other regexp, Finds regexp .WildcardMode ['\\', '%'] ['%'] ∧
    selects other regexp .WildcardMode ['\\', '%'] ['%'] = false) ∧ ¬ Faithful ℕ ℕ .WildcardMode "\\%" := by
  have hmiss : ∀ other regexp, selects other regexp .WildcardMode ['\\', '%'] ['%'] = false := by
    intro other regexp
    have hpattern : likePattern (wildcardQuery ['\\', '%']) = some [lit '\\', any] := by
      rw [wildcardQuery_pair]
      rfl
    show like other (wildcardQuery ['\\', '%']) ['%'] = false
    rw [like_of_likePattern hpattern]
    decide
  have hfinds : ∀ regexp, Finds regexp .WildcardMode ['\\', '%'] ['%'] := by
    intro regexp
    show Matches Char.toLower (globPattern ['\\', '%']) ['%'] = true
    decide
  refine ⟨fun other regexp => ⟨hfinds regexp, hmiss other regexp⟩, ?_⟩
  have hno : ¬ selects (fun _ _ => true) (fun _ _ => false) .WildcardMode "\\%".toList ['%'] :=
    Bool.eq_false_iff.mp (hmiss _ _)
  exact not_faithful (hfinds _) hno

end Search

end QtDataSync
