/-!
# Name patterns

A pattern describes texts: `*` stands for any run of characters, `?` for any single one, a set in
brackets for one of its characters, and every other character for itself. A separator is a
character like any other, so `*` crosses directories.

Inside brackets `a-z` is a range, `!` at the front takes the complement, and a closing bracket at
the front is an ordinary character. A range whose ends are the wrong way round is empty. A bracket
that is not closed stands for itself.

Results: `matches_nil`, the empty pattern matches the empty text only.
-/

namespace SchemaTypes.Glob

/-! ## Sets in brackets -/

/-- The characters between the brackets, cut at every hyphen that makes a range. The first piece
takes at least `lead` characters and every later one two, so that a hyphen next to the bracket or to
another range stands for itself. `piece` holds the characters of the current piece in reverse. -/
def cutAtHyphens : (lead : Nat) → (piece cs : List Char) → List (List Char)
  | _, piece, [] => [piece.reverse]
  | 0, piece, c :: cs =>
    if c = '-' then piece.reverse :: cutAtHyphens 2 [] cs else cutAtHyphens 0 (c :: piece) cs
  | lead + 1, piece, c :: cs => cutAtHyphens lead (c :: piece) cs

/-- A hyphen at the end makes no range: it belongs to the piece before it. -/
def closePieces : List (List Char) → List (List Char)
  | [piece, []] => [piece ++ ['-']]
  | piece :: pieces => piece :: closePieces pieces
  | [] => []

/-- The pieces with every empty range removed, from the last one to the first. Two pieces between
which a range would run backwards become one, without the ends of that range. -/
def dropEmptyRanges : List (List Char) → List (List Char)
  | [] => []
  | piece :: pieces =>
    match dropEmptyRanges pieces with
    | [] => [piece]
    | next :: rest =>
      match piece.getLast?, next with
      | some a, b :: more =>
        if b < a then (piece.dropLast ++ more) :: rest else piece :: next :: rest
      | _, _ => piece :: next :: rest

/-- The ranges between and inside the pieces: the last character of a piece and the first one of the
next are the ends of a range, and every other character stands for itself. `open?` is the lower end
of a range that waits for its upper end. -/
def rangesOf : (lower : Option Char) → List (List Char) → List (Char × Char)
  | _, [] => []
  | lower, piece :: pieces =>
    let (firsts, singles) : List (Char × Char) × List Char := match lower, piece with
      | some a, b :: rest => ([(a, b)], rest)
      | some a, [] => ([(a, a), ('-', '-')], [])
      | none, cs => ([], cs)
    match pieces with
    | [] => firsts ++ singles.map fun c => (c, c)
    | _ :: _ =>
      match singles.getLast? with
      | some a => firsts ++ (singles.dropLast.map fun c => (c, c)) ++ rangesOf (some a) pieces
      | none => firsts ++ ('-', '-') :: rangesOf none pieces

/-- A set of characters by its ranges, or the complement of one. -/
structure CharSet where
  complement : Bool
  ranges : List (Char × Char)

/-- Whether the character belongs to the set. -/
def CharSet.holds (set : CharSet) (c : Char) : Bool :=
  (set.ranges.any fun r => r.1 ≤ c && c ≤ r.2) != set.complement

/-- The set that the characters between two brackets describe. -/
def CharSet.ofBody (body : List Char) : CharSet :=
  let pieces :=
    if body.contains '-' then
      let lead := if body.head? == some '!' then 2 else 1
      dropEmptyRanges (closePieces (cutAtHyphens lead [] body))
    else [body]
  match pieces with
  | ('!' :: piece) :: rest => { complement := true, ranges := rangesOf none (piece :: rest) }
  | _ => { complement := false, ranges := rangesOf none pieces }

/-! ## Patterns -/

/-- One element of a pattern. -/
inductive Token where
  | star
  | any
  | set (s : CharSet)
  | char (c : Char)

/-- The characters after an opening bracket that do not close it whatever they are: the mark of the
complement and a bracket at the very front. With them what follows. -/
def bracketFront : List Char → List Char × List Char
  | '!' :: ']' :: rest => (['!', ']'], rest)
  | '!' :: rest => (['!'], rest)
  | ']' :: rest => ([']'], rest)
  | rest => ([], rest)

theorem bracketFront_length (cs : List Char) : (bracketFront cs).2.length ≤ cs.length := by
  unfold bracketFront
  split <;> simp only [List.length_cons] <;> omega

/-- The characters up to the closing bracket and those after it. -/
def bracketBody? (cs : List Char) : Option (List Char × List Char) :=
  let front := bracketFront cs
  match front.2.dropWhile (· != ']') with
  | [] => none
  | _ :: after => some (front.1 ++ front.2.takeWhile (· != ']'), after)

theorem bracketBody?_length {cs body rest : List Char} (h : bracketBody? cs = some (body, rest)) :
    rest.length < cs.length := by
  have hfront := bracketFront_length cs
  have hdrop := (List.dropWhile_suffix (l := (bracketFront cs).2) (· != ']')).length_le
  simp only [bracketBody?] at h
  split at h
  · simp at h
  · rename_i heq
    rw [heq] at hdrop
    simp only [Option.some.injEq, Prod.mk.injEq] at h
    simp only [List.length_cons] at hdrop
    rw [← h.2]
    omega

/-- The elements of a pattern. -/
def parse (cs : List Char) : List Token :=
  match cs with
  | [] => []
  | '*' :: rest => .star :: parse rest
  | '?' :: rest => .any :: parse rest
  | '[' :: rest =>
    match _h : bracketBody? rest with
    | some (body, after) => .set (CharSet.ofBody body) :: parse after
    | none => .char '[' :: parse rest
  | c :: rest => .char c :: parse rest
termination_by cs.length
decreasing_by
  all_goals simp only [List.length_cons]
  all_goals first
    | omega
    | have := bracketBody?_length _h
      omega

/-- Whether a property holds of the text or of what is left of it after some characters. -/
def someSuffix (p : List Char → Bool) : List Char → Bool
  | [] => p []
  | c :: cs => p (c :: cs) || someSuffix p cs

/-- Whether the elements describe the whole text. -/
def matchTokens : List Token → List Char → Bool
  | [], cs => cs.isEmpty
  | .star :: tokens, cs => someSuffix (matchTokens tokens) cs
  | _ :: _, [] => false
  | .any :: tokens, _ :: cs => matchTokens tokens cs
  | .set s :: tokens, c :: cs => s.holds c && matchTokens tokens cs
  | .char d :: tokens, c :: cs => c == d && matchTokens tokens cs

theorem matches_nil (cs : List Char) : matchTokens [] cs = cs.isEmpty := by
  simp [matchTokens]

/-! ## Patterns for paths -/

/-- Whether the pattern describes the path. A leading `**/` also describes no directory at all, and
this holds again for what follows it. -/
def matchesPath (text : List Char) : (pattern : List Char) → Bool
  | '*' :: '*' :: '/' :: rest =>
    matchTokens (parse ('*' :: '*' :: '/' :: rest)) text || matchesPath text rest
  | pattern => matchTokens (parse pattern) text

/-- Whether the pattern describes the path, both given as texts. -/
def describesPath (path pattern : String) : Bool :=
  matchesPath path.toList pattern.toList

end SchemaTypes.Glob
