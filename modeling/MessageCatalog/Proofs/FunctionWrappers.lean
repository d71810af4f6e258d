import MessageCatalog.Proofs.CallMessage

/-! Messages read from functions: the placeholders of what is returned are exactly the parameters
that are plain names. -/

namespace MessageCatalog

def Script.Node.parameters : Script.Node → List Script.Node
  | .function _ parameters _ _ _ => parameters
  | .lambda parameters _ _ => parameters
  | _ => []

namespace Definition
open Script (Node Span)

inductive Value.Of : Node → Value → Prop
  | text (node : Node) : Value.Of node (.text node)
  | function (isArrow : Bool) (parameters body : List Node) (bodySpan span : Span) :
    Value.Of (.function isArrow parameters body bodySpan span)
      (.function parameters (.statements body bodySpan))
  | lambda (parameters : List Node) (result : Node) (span : Span) :
    Value.Of (.lambda parameters result span) (.function parameters (.result result))
  | call (callee : Node) (arguments : List Node) (span : Span) :
    Value.Of (.call callee arguments span) (.call (.call callee arguments span))

theorem of_classify {key : String} {value : Node} {v : Value} (h : classify key value = .ok v) :
    Value.Of value.unparenthesized v := by
  unfold classify at h
  generalize value.unparenthesized = n at h ⊢
  split at h
  · cases h
    exact .text _
  · cases h
    exact .text _
  · split_ifs at h
    · cases h
      exact .text _
    · exact absurd h (fault_ne_ok _ _ _)
  · cases h
    exact .function _ _ _ _ _
  · cases h
    exact .lambda _ _ _
  · cases h
    exact .call _ _ _
  · exact absurd h (fault_ne_ok _ _ _)

theorem parameters_of_classify {key : String} {value : Node} {parameters : List Node} {body : Body}
    (h : classify key value = .ok (.function parameters body)) :
    value.unparenthesized.parameters = parameters := by
  have hof := of_classify h
  generalize value.unparenthesized = n at hof
  cases hof <;> rfl

def plainNames (parameters : List Node) : List String :=
  parameters.filterMap fun
    | .name text _ => some text
    | _ => none

theorem parameterNames_eq_ok_iff {seen names : List String} {parameters : List Node}
    (hseen : seen.Nodup) :
    parameterNames seen parameters = .ok names ↔
      (seen ++ plainNames parameters).Nodup ∧ names = seen ++ plainNames parameters := by
  induction parameters generalizing seen with
  | nil => simp [parameterNames, plainNames, hseen, eq_comm]
  | cons p ps ih =>
    cases p with
    | name text span =>
      have hplain : plainNames (.name text span :: ps) = text :: plainNames ps := rfl
      rw [parameterNames, hplain]
      split_ifs with hmem
      · rw [List.contains_iff_mem] at hmem
        refine iff_of_false (fault_ne_ok _ _ _) fun h => ?_
        exact (List.nodup_append.1 h.1).2.2 text hmem text List.mem_cons_self rfl
      · rw [List.contains_iff_mem] at hmem
        have hnext : (seen ++ [text]).Nodup := by
          simpa [List.nodup_append] using ⟨hseen, fun x hx => ne_of_mem_of_not_mem hx hmem⟩
        rw [ih hnext, List.append_assoc, List.singleton_append]
    | _ => exact ih hseen

theorem appendReturned_binary_eq_ok {d d' : Draft} {operator : String} {left right : Node}
    {span : Span} :
    appendReturned d (.binary operator left right span) = .ok d' ↔
      operator = "+" ∧ ∃ mid, appendReturned d left = .ok mid ∧
        appendReturned mid right = .ok d' := by
  rw [appendReturned]
  split_ifs with hplus
  · cases appendReturned d left <;> simp [hplus]
  · simp [hplus]

theorem exists_map_eq_ok {x : Except Malformed Draft} {d : Draft} {span : Span} :
    (∃ s, (x.map fun d' => (d', span)) = .ok (d, s)) ↔ x = .ok d := by
  simp [map_eq_ok]

theorem ofFunction_eq_ok {d d' : Draft} {parameters : List Node} {body : Body} :
    ofFunction d parameters body = .ok d' ↔
      ∃ names, parameterNames [] parameters = .ok names ∧
        (∃ span, appendBody d body = .ok (d', span)) ∧
          ∀ x, x ∈ d'.placeholders ↔ x ∈ names := by
  simp only [ofFunction, bind_eq_ok]
  constructor
  · rintro ⟨names, hnames, ⟨mid, span⟩, hbody, _, hcheck, hd⟩
    cases hd
    exact ⟨names, hnames, ⟨span, hbody⟩, checkPlaceholders_eq_ok_iff.1 hcheck⟩
  · rintro ⟨names, hnames, ⟨span, hbody⟩, hcheck⟩
    exact ⟨names, hnames, ⟨d', span⟩, hbody, (), checkPlaceholders_eq_ok_iff.2 hcheck, rfl⟩

theorem ofFunction_congr {d d' : Draft} {parameters others : List Node} {body : Body}
    (h : plainNames others = plainNames parameters) :
    ofFunction d others body = .ok d' ↔ ofFunction d parameters body = .ok d' := by
  have hnames : ∀ names, parameterNames [] others = .ok names ↔
      parameterNames [] parameters = .ok names := by
    intro names
    rw [parameterNames_eq_ok_iff .nil, parameterNames_eq_ok_iff .nil, h]
  simp only [ofFunction_eq_ok, hnames]

/-- The plain names among the parameters of an accepted function are different, and they are the
placeholders of its message. Parameters of any other form are passed over: with others in their
place, or with none, the message is the same. -/
theorem placeholders_of_function {d d' : Draft} {key : String} {value : Node}
    {parameters : List Node} {body : Body}
    (hvalue : classify key value = .ok (.function parameters body))
    (h : ofFunction d parameters body = .ok d') :
    value.unparenthesized.parameters = parameters ∧ (plainNames parameters).Nodup ∧
      (∀ name, .placeholder name ∈ d'.parts ↔ name ∈ plainNames parameters) ∧
      ∀ others, plainNames others = plainNames parameters → ofFunction d others body = .ok d' := by
  obtain ⟨names, hnames, -, hused⟩ := ofFunction_eq_ok.1 h
  obtain ⟨hnodup, rfl⟩ := (parameterNames_eq_ok_iff .nil).1 hnames
  refine ⟨parameters_of_classify hvalue, hnodup, fun name => ?_, fun others hothers => ?_⟩
  · rw [← Draft.mem_placeholders, hused name, List.nil_append]
  · exact (ofFunction_congr hothers).2 h

section Greeter

-- `function(name, [x]) { return 'Hi ' + name; }`

def greeterParameters : List Node :=
  [.name "name" ⟨9, 13⟩, .arrayPattern [.name "x" ⟨16, 17⟩] ⟨15, 18⟩]

def greeterBody : List Node :=
  let returned := Node.binary "+" (.string (some "Hi ") ⟨29, 34⟩) (.name "name" ⟨37, 41⟩) ⟨29, 41⟩
  [.returnStatement (some returned) ⟨22, 42⟩]

def greeter : Node := .function false greeterParameters greeterBody ⟨20, 44⟩ ⟨0, 44⟩

theorem placeholders_of_function_greeter :
    ∃ body d', classify "MSG_A" greeter = .ok (.function greeterParameters body) ∧
      ofFunction {} greeterParameters body = .ok d' ∧
        ∀ name, .placeholder name ∈ d'.parts ↔ name ∈ ["name"] := by
  have hvalue : classify "MSG_A" greeter =
      .ok (.function greeterParameters (.statements greeterBody ⟨20, 44⟩)) := rfl
  have hread : ofFunction {} greeterParameters (.statements greeterBody ⟨20, 44⟩) =
      .ok { parts := [.text "Hi ", .placeholder "name"] } := by decide +kernel
  obtain ⟨-, -, hnames, -⟩ := placeholders_of_function hvalue hread
  exact ⟨_, _, hvalue, hread, hnames⟩

theorem not_forall_isName_greeter :
    ¬ ∀ key value parameters body d', classify key value = .ok (.function parameters body) →
      ofFunction {} parameters body = .ok d' →
        ∀ p ∈ parameters, ∃ name span, p = .name name span := by
  intro h
  have hread : ofFunction {} greeterParameters (.statements greeterBody ⟨20, 44⟩) =
      .ok { parts := [.text "Hi ", .placeholder "name"] } := by decide +kernel
  obtain ⟨name, span, hname⟩ := h "MSG_A" greeter _ _ _ rfl hread _
    (List.mem_cons_of_mem _ List.mem_cons_self)
  cases hname

end Greeter

end Definition

end MessageCatalog
