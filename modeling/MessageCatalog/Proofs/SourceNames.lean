import MessageCatalog.Proofs.Extraction

/-! Reading a value does not look at the source name of the draft: under another source name it
comes to the same draft under that name, or to the same fault. -/

namespace MessageCatalog

def Draft.placedAt (sourceName : String) (d : Draft) : Draft := { d with sourceName := sourceName }

namespace Definition
open Script (Node Span)

variable {sourceName : String} (d : Draft)

theorem appendReturned_placedAt (node : Node) :
    appendReturned (d.placedAt sourceName) node =
      Draft.placedAt sourceName <$> appendReturned d node := by
  fun_induction appendReturned d node with
  | case1 => rfl
  | case2 d left right span e hleft ih =>
    rw [appendReturned, if_pos rfl, ih, hleft]
    rfl
  | case3 d left right span mid hleft ihl ihr =>
    rw [appendReturned, if_pos rfl, ihl, hleft]
    exact ihr
  | case4 d operator left right span hoperator =>
    rw [appendReturned, if_neg hoperator]
    rfl
  | case5 d inner span ih =>
    rw [appendReturned]
    exact ih
  | case6 d text span =>
    rw [appendReturned]
    cases textOf (.string text span) <;> rfl
  | case7 d text values span =>
    rw [appendReturned]
    cases textOf (.template text values span) <;> rfl
  | case8 d node hname hbinary hparen hstring htemplate =>
    rw [appendReturned]
    · rfl
    all_goals assumption

theorem appendBody_placedAt (body : Body) :
    appendBody (d.placedAt sourceName) body =
      (fun (d', span) => (d'.placedAt sourceName, span)) <$> appendBody d body := by
  unfold appendBody
  split
  · next node =>
    rw [appendReturned_placedAt]
    cases appendReturned d node <;> rfl
  · rfl
  · next value span _ _ =>
    rw [appendReturned_placedAt]
    cases appendReturned d value <;> rfl
  · rfl
  · rfl

theorem ofFunction_placedAt (parameters : List Node) (body : Body) :
    ofFunction (d.placedAt sourceName) parameters body =
      Draft.placedAt sourceName <$> ofFunction d parameters body := by
  simp only [ofFunction, appendBody_placedAt, map_bind, bind_map_left]
  rfl

theorem appendParts_placedAt (parts : List Part) :
    parts.foldl Draft.appendPart (d.placedAt sourceName) =
      (parts.foldl Draft.appendPart d).placedAt sourceName := by
  induction parts generalizing d with
  | nil => rfl
  | cons p ps ih =>
    have hstep : (d.placedAt sourceName).appendPart p =
        (d.appendPart p).placedAt sourceName := by
      cases p <;> rfl
    rw [List.foldl_cons, List.foldl_cons, hstep, ih]

theorem appendMessageText_placedAt (node : Node) :
    appendMessageText (d.placedAt sourceName) node =
      Draft.placedAt sourceName <$> appendMessageText d node := by
  unfold appendMessageText
  rw [map_bind]
  congr
  funext text
  unfold Draft.appendMessage
  cases Part.parse text with
  | error => rfl
  | ok parts => exact congrArg Except.ok (appendParts_placedAt d parts)

theorem applyOptions_placedAt (used : List String) (properties : List Node) :
    applyOptions used (d.placedAt sourceName) properties =
      Draft.placedAt sourceName <$> applyOptions used d properties := by
  induction properties generalizing d with
  | nil => rfl
  | cons property rest ih =>
    rw [applyOptions, applyOptions, map_bind]
    congr
    funext entry
    split_ifs
    · rw [map_bind]
      congr
      funext texts
      exact ih { d with code := texts }
    · rw [map_bind]
      congr
      funext texts
      exact ih { d with examples := texts }
    · exact ih d

theorem ofArguments_placedAt (span : Span) (arguments : List Node) :
    ofArguments (d.placedAt sourceName) span arguments =
      Draft.placedAt sourceName <$> ofArguments d span arguments := by
  match arguments with
  | [] => rfl
  | [text] | [text, _] | text :: _ :: _ :: _ =>
    simp only [ofArguments, appendMessageText_placedAt, applyOptions_placedAt, map_bind, bind_map_left]
    rfl

theorem ofCall_placedAt (value : Node) :
    ofCall (d.placedAt sourceName) value =
      Draft.placedAt sourceName <$> ofCall d value := by
  unfold ofCall
  split
  · split_ifs
    · rfl
    · split
      · rfl
      · exact ofArguments_placedAt d _ _
  · rfl

variable (env : Surroundings) (site : Site)

theorem annotate_placedAt :
    env.annotate site (d.placedAt sourceName) = (env.annotate site d).placedAt sourceName := by
  unfold Surroundings.annotate
  split <;> rfl

theorem describeBy_placedAt (value : Option Node) (span : Span) :
    describeBy (d.placedAt sourceName) value span =
      Draft.placedAt sourceName <$> describeBy d value span := by
  unfold describeBy
  split
  · rfl
  · rw [map_bind]
    congr
    funext text
    split <;> rfl

theorem describeLegacy_placedAt :
    describeLegacy env site (d.placedAt sourceName) =
      Draft.placedAt sourceName <$> describeLegacy env site d := by
  unfold describeLegacy
  dsimp only
  rw [annotate_placedAt]
  split_ifs
  · rfl
  · have hkey : ((env.annotate site d).placedAt sourceName).key = (env.annotate site d).key := rfl
    rw [hkey]
    split
    · rfl
    · split
      · exact describeBy_placedAt _ _ _
      · rfl

theorem draftOf_placedAt (value : Node) :
    draftOf env site (d.placedAt sourceName) value =
      Draft.placedAt sourceName <$> draftOf env site d value := by
  unfold draftOf
  split
  · unfold draftOfVariable
    have hkey : (d.placedAt sourceName).displayKey = d.displayKey := rfl
    rw [hkey, map_bind]
    congr
    funext shape
    cases shape with
    | text node =>
      simp only [describeLegacy_placedAt, map_bind, bind_map_left]
      rfl
    | function parameters body =>
      simp only [describeLegacy_placedAt, map_bind, bind_map_left, ofFunction_placedAt]
    | call node =>
      simp only [annotate_placedAt, ofCall_placedAt]
  · rw [annotate_placedAt, ofCall_placedAt]

end Definition

end MessageCatalog
