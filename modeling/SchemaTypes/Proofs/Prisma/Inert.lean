import SchemaTypes.Proofs.Prisma.Comments

/-!
# Comments hold no schema

Another text in a comment of a block leaves the schema as it is, if the scan for braces and the reading of
lines agree about the comment. The scan ends a comment at the next line feed, the lines end at every line
end; so the text has to fill one line. The scan counts quotes from the brace on, a line by itself; so the
slashes have to stand outside quotes in their line too, and also for each header above whose brace is not
closed. Where they do not agree, the text of a comment is read as schema (`comment_read`).

The proof goes through the scan of both texts at once. Above the comment they are the same text; the block
of the comment has the same lines but for the comment, which says nothing; and below that block only places
differ.

Results:
* `Schema.ofSources_congr`: a schema depends on what its blocks are read as.
* `closing?_comment`, `splitLines_comment`: the brace behind a comment, and the lines around it.
* `isLower_of_closing`: no documentation is passed on over a closing brace.
* `scanFrom_comment`: the scan of both texts.
* `comment_inert`: the schema is the same.
-/

namespace SchemaTypes.Prisma

/-! ## Readings -/

/-- What a block is read as. -/
structure Reading where
  keyword : Keyword
  enum : Except BlockFault RawEnum
  model : List RawEnum → Except BlockFault RawModel

/-- The reading of a block. -/
def Block.reading (b : Block) : Reading :=
  { keyword := b.keyword, enum := enumOfBlock b, model := fun enums => modelOfBlock enums b }

/-- The reading of what a scan finds. -/
def Found.reading : Found → Except BlockFault Reading
  | .block b => .ok b.reading
  | .unclosed keyword name line path => .error (.unclosed keyword name line path)

/-- The fault, if there is no reading. -/
def faultOf? : Except BlockFault Reading → Option BlockFault
  | .ok _ => none
  | .error fault => some fault

theorem fault?_reading (found : List Found) :
    found.filterMap Found.fault? = (found.map Found.reading).filterMap faultOf? := by
  rw [List.filterMap_map]
  congr 1
  funext f
  cases f <;> rfl

theorem block?_reading (found : List Found) : (found.filterMap Found.block?).map Block.reading =
    (found.map Found.reading).filterMap Except.toOption := by
  rw [List.filterMap_map, List.map_filterMap]
  congr 1
  funext f
  cases f <;> rfl

/-- A schema depends on what its blocks are read as. -/
theorem Schema.ofSources_congr {sources sources' : List Source}
    (h : (scanAll sources).map Found.reading = (scanAll sources').map Found.reading) :
    Schema.ofSources sources = Schema.ofSources sources' := by
  have hfaults : (scanAll sources).filterMap Found.fault? =
      (scanAll sources').filterMap Found.fault? := by
    rw [fault?_reading, fault?_reading, h]
  have hblocks : ((scanAll sources).filterMap Found.block?).map Block.reading =
      ((scanAll sources').filterMap Found.block?).map Block.reading := by
    rw [block?_reading, block?_reading, h]
  -- Blocks are chosen by their keyword and then read, and a reading has both.
  have hchosen {α : Type} (p : Keyword → Bool) (f : Reading → α) :
      (((scanAll sources).filterMap Found.block?).filter fun b => p b.keyword).map
          (fun b => f b.reading) =
        (((scanAll sources').filterMap Found.block?).filter fun b => p b.keyword).map
          (fun b => f b.reading) := by
    have hread (blocks : List Block) : (blocks.filter fun b => p b.keyword).map
        (fun b => f b.reading) = ((blocks.map Block.reading).filter fun r => p r.keyword).map f := by
      rw [List.filter_map, List.map_map]
      rfl
    rw [hread, hread, hblocks]
  have henums := hchosen (· == .enum) Reading.enum
  have hmodels (enums : List RawEnum) := hchosen Keyword.declaresFields fun r => r.model enums
  simp only [Block.reading] at henums hmodels
  simp only [Schema.ofSources, hfaults, henums, hmodels]

/-- A block with another body whose lines say the same. -/
theorem Block.reading_congr {b : Block} {body : List Char}
    (h : (Text.splitLines b.body).map lineReading = (Text.splitLines body).map lineReading)
    (stop : Nat) : { b with body, stop }.reading = b.reading := by
  have henum := enumValues_congr h
  have hfields (enums : List RawEnum) := fieldsOfLines_congr enums h b.line []
  simp only [Block.reading, enumOfBlock, modelOfBlock, henum, hfields]

/-- Places do not matter to the reading. -/
theorem reading_lowered (lines places places' : Nat) (f : Found) :
    (f.lowered lines places).reading = (f.lowered lines places').reading := by
  cases f <;> rfl

/-! ## A comment in the body of a block -/

theorem endsLine_comment (front text : List Char) : endsLine (front ++ comment text) = true := by
  have hlast : front ++ comment text = (front ++ '/' :: '/' :: text) ++ ['\n'] := by simp [comment]
  rw [endsLine, hlast, List.getLast?_concat]
  rfl

theorem count_comment {text : List Char} (h : '\n' ∉ text) : (comment text).count '\n' = 1 := by
  simp [comment, List.count_eq_zero.mpr h]

section Comment

variable {inside : List Char}

/-- A brace that is not closed in a text is closed behind the text, if at all. -/
theorem lt_closing_of_unclosed (hunclosed : closing? braces (braces.opening :: inside) = none)
    {more : List Char} {n : Nat}
    (h : closing? braces (braces.opening :: (inside ++ more)) = some n) : inside.length < n := by
  obtain ⟨depth, hdepth⟩ := closingFrom_append_none hunclosed
  obtain ⟨k, -, rfl⟩ := Option.map_eq_some_iff.mp ((hdepth more).symm.trans h)
  simp only [List.length_cons]
  omega

/-- The brace behind a comment. -/
theorem closing?_comment (hunclosed : closing? braces (braces.opening :: inside) = none)
    (hmode : (Mode.code.through true inside (some '/')).inQuotes = false) :
    ∃ depth, ∀ text rest, '\n' ∉ text →
      closing? braces (braces.opening :: (inside ++ comment text ++ rest)) =
        (closingFrom braces .code depth rest).map
          (· + (inside.length + 1 + (comment text).length)) := by
  obtain ⟨depth, hdepth⟩ := closingFrom_append_none hunclosed
  refine ⟨depth, fun text rest htext => ?_⟩
  have hlong := hdepth (comment text ++ rest)
  have hhead : (comment text ++ rest).head? = some '/' := rfl
  have hthrough : Mode.code.through braces.comments (braces.opening :: inside) (some '/') =
      Mode.code.through true inside (some '/') := rfl
  rw [hhead, hthrough, closingFrom_comment_append hmode htext, Option.map_map] at hlong
  rw [closing?, List.append_assoc]
  refine hlong.trans ?_
  congr 1
  funext n
  simp [comment]
  omega

/-- The lines around a comment. -/
theorem splitLines_comment (inside : List Char) : ∃ before, ∀ text line rest,
    Text.splitLines (text ++ ['\n']) = [line] → Text.splitLines (inside ++ comment text ++ rest) =
      before ++ (Text.lastLine inside ++ '/' :: '/' :: line) :: Text.splitLines rest := by
  obtain ⟨before, hbefore⟩ := Text.splitLines_append_line inside
  refine ⟨before, fun text line rest hline => ?_⟩
  have hslash : Text.isLineEnd '/' = false := by decide
  have hfirst : Text.splitLines ('/' :: ('/' :: text ++ '\n' :: rest)) =
      ('/' :: '/' :: line) :: Text.splitLines rest := by
    rw [Text.splitLines_cons_of_not_end hslash, List.cons_append,
      Text.splitLines_cons_of_not_end hslash, Text.splitLines_append_feed, hline]
    rfl
  simpa [comment] using hbefore '/' ('/' :: text ++ '\n' :: rest) _ _ hslash hfirst

/-- The lines of a body say the same with another text in a comment. -/
theorem lineReading_comment {old new : List Char}
    (hline : Mode.code.through true (Text.lastLine inside) (some '/') = .code)
    (hold : isCommentText old = true) (hnew : isCommentText new = true) (rest : List Char) :
    (Text.splitLines (inside ++ comment old ++ rest)).map lineReading =
      (Text.splitLines (inside ++ comment new ++ rest)).map lineReading := by
  obtain ⟨before, hbefore⟩ := splitLines_comment inside
  obtain ⟨line, hsplit, hhead⟩ := line_of_isCommentText hold
  obtain ⟨line', hsplit', hhead'⟩ := line_of_isCommentText hnew
  have hfeed : '\n' ∉ Text.lastLine inside := fun hmem => by
    simpa [isLineEnd_feed] using Text.lastLine_no_end inside '\n' hmem
  have hsame := lineReading_slashes hfeed hline hhead hhead'
  rw [hbefore old line rest hsplit, hbefore new line' rest hsplit']
  simp only [List.map_append, List.map_cons, hsame]

end Comment

/-- Below a closing brace a scan goes on as it does without the lines above the text of the brace. -/
theorem isLower_of_closing {front cs : List Char} (hfront : endsLine front = true) {depth : Int}
    {n : Nat} (h : closingFrom braces .code depth cs = some n) :
    IsLower (front.count '\n') front.length cs.reverse (front ++ cs).reverse where
  start := by
    have hne : cs ≠ [] := fun hnil => by simp [hnil, closingFrom] at h
    obtain ⟨cs, c, rfl⟩ := (List.eq_nil_or_concat cs).resolve_left hne
    simp
  lines := by simp [Nat.add_comm]
  places := by simp [Nat.add_comm]
  docs rest := by
    have hdoc := exists_line_of_closing (closingFrom_append_some h rest)
    simpa using docAtEnd_append hfront (Or.inl hdoc)

/-! ## The scan -/

variable {path : Option String}

/-- A block starts behind what is scanned, and its body behind its start. -/
theorem le_start_of_mem_scanFrom {skip : Nat} {before cs : List Char} {b : Block}
    (h : .block b ∈ scanFrom path skip before cs) :
    before.length + skip ≤ b.start ∧ b.start + b.body.length < b.stop := by
  obtain ⟨above, rest, header, hhere, hplace, hb⟩ := exists_header_of_mem h
  have hlength := (headerHere?_suffix hhere).2
  cases hclosing : closing? braces (braces.opening :: header.rest) with
  | none => simp [found_of_unclosed hclosing] at hb
  | some n =>
    have hbody := length_body hclosing
    have hpos := closing?_pos (by decide) hclosing
    simp only [Header.found, hclosing, Found.block.injEq] at hb
    simp only [hb, hbody]
    omega

/-- No header goes into a comment. -/
theorem headerHere?_comment (before w text rest : List Char) :
    headerHere? before (w ++ comment text ++ rest) =
      (headerHere? before w).map fun h => { h with rest := h.rest ++ comment text ++ rest } := by
  have happend := headerHere?_append (c := '/') (by decide) before w ('/' :: text ++ '\n' :: rest)
  simpa [comment] using happend

/-- The scan from the header of a block with a comment on. Only the body of the block and where it ends
depend on the text of the comment. Below the block the scan goes on as if nothing stood above the text
behind the comment, apart from lines and places. -/
theorem scanFrom_block_comment (path : Option String) {before w inside rest : List Char} {h : Header}
    {depth : Int} {m : Nat} (hhere : headerHere? before w = some h) (hinside : h.rest = inside)
    (hrest : closingFrom braces .code depth rest = some m) :
    ∃ b : Block, ∀ text, '\n' ∉ text →
      closing? braces (braces.opening :: (inside ++ comment text ++ rest)) =
        (closingFrom braces .code depth rest).map (· + (inside.length + 1 + (comment text).length)) →
      ∃ stop places, scanFrom path 0 before (w ++ comment text ++ rest) =
        .block { b with body := inside ++ comment text ++ rest.take m, stop } ::
          (scanFrom path 0 (rest.take (m + 1)).reverse (rest.drop (m + 1))).map
            (Found.lowered (before.count '\n' + w.count '\n' + 1) places) := by
  refine ⟨{ keyword := h.keyword, name := h.name, body := [], description := docAtEnd before.reverse
            line := before.count '\n' + 1, sourcePath := path, start := before.length, stop := 0 },
    fun text htext hclosing => ?_⟩
  have hhere' : headerHere? before (w ++ comment text ++ rest) =
      some { h with rest := inside ++ comment text ++ rest } := by
    rw [headerHere?_comment, hhere, Option.map_some, hinside]
  rw [hrest, Option.map_some] at hclosing
  have hfound := scanFrom_found path (by simp [comment]) (by omega) hhere' hclosing
  have hlength := (headerHere?_suffix hhere).1.length_le
  have hm := closingFrom_lt hrest
  rw [hinside] at hlength
  -- What is used up is the text up to the brace behind the comment.
  have hused : (w ++ comment text ++ rest).length - (inside ++ comment text ++ rest).length +
      (m + (inside.length + 1 + (comment text).length)) = (w ++ comment text).length + (m + 1) := by
    simp only [List.length_append]
    omega
  have hbody : (inside ++ comment text ++ rest).take
      (m + (inside.length + 1 + (comment text).length) - 1) =
        inside ++ comment text ++ rest.take m := by
    have hcount : m + (inside.length + 1 + (comment text).length) - 1 =
        (inside ++ comment text).length + m := by
      simp only [List.length_append]
      omega
    rw [hcount, List.take_length_add_append]
  have hlower := (isLower_of_closing (endsLine_comment (before.reverse ++ w) text)
    (closingFrom_take hrest)).scanFrom path 0 (rest.drop (m + 1))
  rw [List.count_append, count_comment htext, List.count_append, List.count_reverse] at hlower
  rw [hused, List.take_length_add_append, List.drop_length_add_append] at hfound
  simp only [Header.found, hclosing, hbody] at hfound
  refine ⟨_, _, hfound.trans (congrArg _ (Eq.trans ?_ hlower))⟩
  simp

/-- A comment in the body of a block of a schema. `above` stands before the body, `inside` between the
brace and the comment, and `rest` below the comment. -/
structure CommentIn (path : Option String) (above inside old rest : List Char) (b : Block) : Prop where
  found : .block b ∈ scan path (above ++ inside ++ comment old ++ rest)
  starts : b.stop = above.length + b.body.length
  within : inside.length < b.body.length
  skipped : Mode.code.through true inside (some '/') = .code

/-- Whether all that goes over a comment takes it for one: its text fills a line and is no documentation,
and the slashes stand outside quotes in their line and behind each header above that is left open. -/
structure ReadAlike (path : Option String) (above inside old rest : List Char) : Prop where
  text : isCommentText old = true
  line : Mode.code.through true (Text.lastLine inside) (some '/') = .code
  opened : ∀ n < above.length, ∀ h ∈ headerHere? (above.take n).reverse (above.drop n ++ inside),
    .unclosed h.keyword h.name ((above.take n).count '\n' + 1) path ∈
        scan path (above ++ inside ++ comment old ++ rest) →
      (Mode.code.through true h.rest (some '/')).inQuotes = false

section Inert

variable {above inside old new rest : List Char} {b : Block}

/-- The block whose body has the comment is opened by the header that has `inside` behind it. -/
theorem rest_eq_inside {before w : List Char} {h : Header} {n : Nat}
    (hstarts : b.stop = above.length + b.body.length)
    (hw : before.reverse ++ w = above ++ inside) (hsuffix : h.rest <:+ w)
    (hclosing : closing? braces (braces.opening :: (h.rest ++ comment old ++ rest)) = some n)
    (hb : .block b = ({ h with rest := h.rest ++ comment old ++ rest }.found path before
      (w.length - h.rest.length)).1) : h.rest = inside ∧ b.body.length = n - 1 := by
  have hbody := length_body hclosing
  have hpos := closing?_pos (by decide) hclosing
  have hlengths := congrArg List.length hw
  have hle := hsuffix.length_le
  simp only [Header.found, hclosing, Found.block.injEq] at hb
  simp only [hb, hbody] at hstarts ⊢
  simp only [List.length_append, List.length_reverse] at hlengths
  have hlong : h.rest <:+ above ++ inside := hw ▸ hsuffix.trans (List.suffix_append _ _)
  have hsame : h.rest.length = inside.length := by omega
  have hinside := List.suffix_of_suffix_length_le hlong (List.suffix_append above inside) hsame.le
  exact ⟨hinside.eq_of_length hsame, trivial⟩

/-- A header that the text of a comment leaves open, another one leaves open too. -/
theorem closing?_comment_none {before w : List Char} {h : Header}
    (halike : ReadAlike path above inside old rest) (hnew : '\n' ∉ new)
    (hw : before.reverse ++ w = above ++ inside) (hbefore : before.length < above.length)
    (hhere : headerHere? before w = some h)
    (hmem : .unclosed h.keyword h.name (before.count '\n' + 1) path ∈
      scan path (above ++ inside ++ comment old ++ rest))
    (hunclosed : closing? braces (braces.opening :: h.rest) = none)
    (hclosing : closing? braces (braces.opening :: (h.rest ++ comment old ++ rest)) = none) :
    closing? braces (braces.opening :: (h.rest ++ comment new ++ rest)) = none := by
  have htake : (above.take before.length).reverse = before := by
    have hfront := congrArg (List.take before.length) hw
    rw [List.take_append_of_le_length hbefore.le, List.take_left' List.length_reverse] at hfront
    exact List.reverse_eq_iff.mpr hfront.symm
  have hdrop : above.drop before.length ++ inside = w := by
    have hback := congrArg (List.drop before.length) hw
    rw [List.drop_append_of_le_length hbefore.le, List.drop_left' List.length_reverse] at hback
    exact hback.symm
  have hcount : (above.take before.length).count '\n' = before.count '\n' := by
    rw [← htake, List.count_reverse, htake]
  have hmode := halike.opened before.length hbefore h (by rw [htake, hdrop, hhere]; rfl)
    (by rwa [hcount])
  obtain ⟨depth, hdepth⟩ := closing?_comment hunclosed hmode
  rw [hdepth old rest (no_feed_of_isCommentText halike.text), Option.map_eq_none_iff] at hclosing
  rw [hdepth new rest hnew, hclosing, Option.map_none]

/-- The step of `scanFrom_comment` at the header of the block with the comment. -/
theorem scanFrom_comment_block {before w : List Char} {h : Header} {n : Nat}
    (hskipped : Mode.code.through true inside (some '/') = .code)
    (halike : ReadAlike path above inside old rest) (hnew : isCommentText new = true)
    (hhere : headerHere? before w = some h) (hrest : h.rest = inside)
    (hunclosed : closing? braces (braces.opening :: inside) = none)
    (hclosing : closing? braces (braces.opening :: (inside ++ comment old ++ rest)) = some n) :
    (scanFrom path 0 before (w ++ comment old ++ rest)).map Found.reading =
      (scanFrom path 0 before (w ++ comment new ++ rest)).map Found.reading := by
  have hold := no_feed_of_isCommentText halike.text
  have hnewFeed := no_feed_of_isCommentText hnew
  obtain ⟨depth, hdepth⟩ := closing?_comment hunclosed (by rw [hskipped]; rfl)
  rw [hdepth old rest hold] at hclosing
  obtain ⟨m, hm, -⟩ := Option.map_eq_some_iff.mp hclosing
  obtain ⟨c, hc⟩ := scanFrom_block_comment path hhere hrest hm
  obtain ⟨stop, places, hscan⟩ := hc old hold (hdepth old rest hold)
  obtain ⟨stop', places', hscan'⟩ := hc new hnewFeed (hdepth new rest hnewFeed)
  have hlines := lineReading_comment halike.line halike.text hnew (rest.take m)
  have hblock := Block.reading_congr
    (b := { c with body := inside ++ comment new ++ rest.take m, stop := stop' }) hlines.symm stop
  rw [hscan, hscan', List.map_cons, List.map_cons, List.map_map, List.map_map]
  refine congrArg₂ _ (congrArg Except.ok hblock) ?_
  exact List.map_congr_left fun f _ => reading_lowered _ places places' f

/-- The step of `scanFrom_comment` at a header above the comment. -/
theorem scanFrom_comment_header {before w : List Char} {d : Char} {h : Header}
    (hstarts : b.stop = above.length + b.body.length)
    (hwithin : inside.length < b.body.length)
    (hskipped : Mode.code.through true inside (some '/') = .code)
    (halike : ReadAlike path above inside old rest) (hnew : isCommentText new = true)
    (hw : before.reverse ++ d :: w = above ++ inside) (hhere : headerHere? before (d :: w) = some h)
    (hfound : .block b ∈ scanFrom path 0 before (d :: (w ++ comment old ++ rest)))
    (hscanned : scanFrom path 0 before (d :: (w ++ comment old ++ rest)) ⊆
      scan path (above ++ inside ++ comment old ++ rest))
    (hnext : ∀ skip, .block b ∈ scanFrom path skip (d :: before) (w ++ comment old ++ rest) →
      scanFrom path skip (d :: before) (w ++ comment old ++ rest) ⊆
        scan path (above ++ inside ++ comment old ++ rest) →
      (scanFrom path skip (d :: before) (w ++ comment old ++ rest)).map Found.reading =
        (scanFrom path skip (d :: before) (w ++ comment new ++ rest)).map Found.reading) :
    (scanFrom path 0 before (d :: (w ++ comment old ++ rest))).map Found.reading =
      (scanFrom path 0 before (d :: (w ++ comment new ++ rest))).map Found.reading := by
  have hsuffix := (headerHere?_suffix hhere).1
  have hstart := le_start_of_mem_scanFrom hfound
  have hhere' (text : List Char) : headerHere? before (d :: (w ++ comment text ++ rest)) =
      some { h with rest := h.rest ++ comment text ++ rest } := by
    have hcomment := headerHere?_comment before (d :: w) text rest
    rwa [hhere, Option.map_some] at hcomment
  have hcut (text : List Char) : (w ++ comment text ++ rest).length + 1 -
      (h.rest ++ comment text ++ rest).length = (d :: w).length - h.rest.length := by
    simp only [List.length_append, List.length_cons]
    omega
  have hscan (text : List Char) := scanFrom_some path (hhere' text)
  simp only [hcut] at hscan
  cases hclosing : closing? braces (braces.opening :: h.rest) with
  | some n =>
    -- The block here ends above the comment.
    have hsame (text : List Char) (length : Nat) :
        { h with rest := h.rest ++ comment text ++ rest }.found path before length =
          h.found path before length := by
      rw [List.append_assoc]
      exact found_append hclosing _ before length
    have hlong : closing? braces (braces.opening :: (h.rest ++ comment old ++ rest)) = some n := by
      rw [List.append_assoc]
      exact closingFrom_append_some hclosing _
    rw [hscan] at hfound
    rcases List.mem_cons.mp hfound with hb | hlater
    · obtain ⟨hrest, hbody⟩ := rest_eq_inside hstarts hw hsuffix hlong hb
      have hlt := closing?_lt hclosing
      simp only [List.length_cons, hrest] at hlt
      omega
    · have hrest := (List.cons_subset.mp (hscan old ▸ hscanned)).2
      rw [hsame] at hlater hrest
      rw [hscan, hscan, hsame, hsame, List.map_cons, List.map_cons, hnext _ hlater hrest]
  | none =>
    cases hold : closing? braces (braces.opening :: (h.rest ++ comment old ++ rest)) with
    | none =>
      rw [hscan, found_of_unclosed hold] at hfound hscanned
      obtain ⟨hmem, hrest⟩ := List.cons_subset.mp hscanned
      have hbefore : before.length < above.length := by omega
      have hopen := closing?_comment_none halike (no_feed_of_isCommentText hnew) hw hbefore hhere
        hmem hclosing hold
      rcases List.mem_cons.mp hfound with hb | hlater
      · simp at hb
      · rw [hscan, hscan, found_of_unclosed hold, found_of_unclosed hopen, List.map_cons,
          List.map_cons, hnext _ hlater hrest]
    | some n =>
      rw [hscan] at hfound
      rcases List.mem_cons.mp hfound with hb | hlater
      · -- The block here is the one with the comment.
        obtain ⟨hrest, -⟩ := rest_eq_inside hstarts hw hsuffix hold hb
        rw [hrest] at hclosing hold
        exact scanFrom_comment_block hskipped halike hnew hhere hrest hclosing hold
      · -- The block here reaches over the comment, so the one with the comment is not below it.
        have hlong := lt_closing_of_unclosed hclosing (List.append_assoc .. ▸ hold)
        have hbelow := (le_start_of_mem_scanFrom hlater).1
        have hlengths := congrArg List.length hw
        rw [length_found hold] at hbelow
        simp only [List.length_append, List.length_reverse, List.length_cons] at hlengths hbelow
        omega

/-- The scan of a schema with a comment and with another text in it. -/
theorem scanFrom_comment (hstarts : b.stop = above.length + b.body.length)
    (hwithin : inside.length < b.body.length)
    (hskipped : Mode.code.through true inside (some '/') = .code)
    (halike : ReadAlike path above inside old rest) (hnew : isCommentText new = true)
    {skip : Nat} {before w : List Char} (hw : before.reverse ++ w = above ++ inside)
    (hfound : .block b ∈ scanFrom path skip before (w ++ comment old ++ rest))
    (hscanned : scanFrom path skip before (w ++ comment old ++ rest) ⊆
      scan path (above ++ inside ++ comment old ++ rest)) :
    (scanFrom path skip before (w ++ comment old ++ rest)).map Found.reading =
      (scanFrom path skip before (w ++ comment new ++ rest)).map Found.reading := by
  induction w generalizing skip before with
  | nil =>
    -- The body of the block starts above the comment.
    have hstart := le_start_of_mem_scanFrom hfound
    have hlengths := congrArg List.length hw
    simp only [List.length_append, List.length_reverse, List.length_nil] at hlengths
    omega
  | cons d w ih =>
    have hw' : (d :: before).reverse ++ w = above ++ inside := by simpa using hw
    simp only [List.cons_append] at hfound hscanned ⊢
    cases skip with
    | succ skip => exact ih hw' hfound hscanned
    | zero =>
      cases hhere : headerHere? before (d :: w) with
      | none =>
        have hnone (text : List Char) : headerHere? before (d :: (w ++ comment text ++ rest)) = none := by
          have hcomment := headerHere?_comment before (d :: w) text rest
          rwa [hhere, Option.map_none] at hcomment
        rw [scanFrom_none path (hnone old)] at hfound hscanned ⊢
        rw [scanFrom_none path (hnone new), ih hw' hfound hscanned]
      | some h =>
        exact scanFrom_comment_header hstarts hwithin hskipped halike hnew hw hhere hfound hscanned
          fun _ hlater hrest => ih hw' hlater hrest

/-- Another text in a comment leaves the schema as it is, where all that goes over the comment takes it for
one. -/
theorem comment_inert (hin : CommentIn path above inside old rest b)
    (halike : ReadAlike path above inside old rest) (hnew : isCommentText new = true) :
    (Schema.ofSources [⟨path, above ++ inside ++ comment old ++ rest⟩]).raw =
      (Schema.ofSources [⟨path, above ++ inside ++ comment new ++ rest⟩]).raw := by
  have hscan : (scan path (above ++ inside ++ comment old ++ rest)).map Found.reading =
      (scan path (above ++ inside ++ comment new ++ rest)).map Found.reading :=
    scanFrom_comment hin.starts hin.within hin.skipped halike hnew rfl hin.found
      (List.Subset.refl _)
  have hschema : Schema.ofSources [⟨path, above ++ inside ++ comment old ++ rest⟩] =
      Schema.ofSources [⟨path, above ++ inside ++ comment new ++ rest⟩] :=
    Schema.ofSources_congr (by simpa [scanAll] using hscan)
  rw [hschema]

end Inert

/-- The header of a model, below one that is left open. -/
def openAbove : List Char := "model Post \x7b\nmodel User \x7b".toList

/-- The model below the header that is left open, with a comment of the given length. -/
def openBlock (text : String) (length : Nat) : Block :=
  { keyword := .model, name := "User", body := ("\n  id Int //" ++ text ++ "\n").toList
    description := none, line := 2, sourcePath := none, start := 13, stop := 38 + length }

theorem comment_inert_open : CommentIn none openAbove "\n  id Int ".toList " a".toList "\x7d\n".toList
      (openBlock " a" 2) ∧
    ReadAlike none openAbove "\n  id Int ".toList " a".toList "\x7d\n".toList ∧
    isCommentText " \x7d \"".toList = true ∧
    (Schema.ofSources [⟨none, openAbove ++ "\n  id Int ".toList ++ comment " a".toList ++
        "\x7d\n".toList⟩]).raw =
      (Schema.ofSources [⟨none, openAbove ++ "\n  id Int ".toList ++ comment " \x7d \"".toList ++
        "\x7d\n".toList⟩]).raw := by
  have hin : CommentIn none openAbove "\n  id Int ".toList " a".toList "\x7d\n".toList
      (openBlock " a" 2) :=
    ⟨by decide +kernel, by decide +kernel, by decide +kernel, by decide +kernel⟩
  have halike : ReadAlike none openAbove "\n  id Int ".toList " a".toList "\x7d\n".toList :=
    ⟨by decide +kernel, by decide +kernel, by decide +kernel⟩
  have hnew : isCommentText " \x7d \"".toList = true := by decide +kernel
  exact ⟨hin, halike, hnew, comment_inert hin halike hnew⟩

/-- The fields of the models of a text, by name. -/
def fieldNames (text : List Char) : List (List (Option String)) :=
  (Schema.ofSources [⟨none, text⟩]).models.map fun m => m.fields.map (·.name)

/-- The header of a model. -/
def userAbove : List Char := "model User \x7b".toList

/-- A comment whose text has a line end that is no line feed is read as schema. -/
theorem comment_read : ∃ b,
    CommentIn none userAbove "\n  id Int ".toList " a\u2028  age Int".toList "\x7d\n".toList b ∧
    fieldNames (userAbove ++ "\n  id Int ".toList ++ comment " a\u2028  age Int".toList ++
      "\x7d\n".toList) = [[some "id", some "age"]] ∧
    fieldNames (userAbove ++ "\n  id Int ".toList ++ comment " a".toList ++ "\x7d\n".toList) =
      [[some "id"]] :=
  ⟨{ keyword := .model, name := "User", body := "\n  id Int // a\u2028  age Int\n".toList
     description := none, line := 1, sourcePath := none, start := 0, stop := 37 },
    ⟨by decide +kernel, by decide +kernel, by decide +kernel, by decide +kernel⟩,
    by decide +kernel, by decide +kernel⟩

/-- So is a comment whose slashes stand in quotes of its line that the lines above open, -/
example : (Schema.ofSources
      [⟨none, "model A \x7b\n  a Int \"\n  b Int(\" //\n\x7d".toList⟩]).models.length = 0 ∧
    (Schema.ofSources
      [⟨none, "model A \x7b\n  a Int \"\n  b Int(\" //\")\n\x7d".toList⟩]).models.length = 1 := by
  decide +kernel

/-- and one that stands in quotes which a header above opens and leaves open. -/
example : (Schema.ofSources
      [⟨none, "model A \x7b \"\nmodel B \x7b\n  x Int //\n\x7d".toList⟩]).models.length = 1 ∧
    (Schema.ofSources
      [⟨none, "model A \x7b \"\nmodel B \x7b\n  x Int //\"\x7d\n\x7d".toList⟩]).models.length = 0 := by
  decide +kernel

end SchemaTypes.Prisma
