import Mathlib.Algebra.BigOperators.Group.List.Basic
import Mathlib.Algebra.Ring.Int.Defs
import RtlBridge.Proofs.Verilog.StatementTokens

/-! How deep a text is nested. The words that open and close modules, blocks and cases are counted from the
start of a text. In the text of a module the count is positive from the word `module` on, and it comes back to
zero with `endmodule`, which is the last token. -/

namespace RtlBridge.Verilog

open List

/-! ### Levels -/

def Token.step : Token → Int
  | .word text =>
    if text ∈ ["module", "begin", "case"] then 1
    else if text ∈ ["endmodule", "end", "endcase"] then -1
    else 0
  | .mark _ => 0

def level (list : List Token) : Int := (list.map Token.step).sum

theorem level_append (first second : List Token) : level (first ++ second) = level first + level second := by
  simp [level]

theorem level_cons (token : Token) (rest : List Token) : level (token :: rest) = token.step + level rest := by
  simp [level]

/-- Everything that is opened is closed again, and nothing else is. -/
structure Balanced (list : List Token) : Prop where
  total : level list = 0
  inside : ∀ n, 0 ≤ level (list.take n)

namespace Balanced

theorem nil : Balanced [] := by
  constructor
  · rfl
  · intro n
    rw [take_nil]
    exact Int.le_refl _

theorem append (left : Balanced first) (right : Balanced second) : Balanced (first ++ second) := by
  constructor
  · rw [level_append, left.total, right.total]
    rfl
  · intro n
    rw [take_append, level_append]
    exact Int.add_nonneg (left.inside n) (right.inside _)

theorem steady (each : ∀ token ∈ list, token.step = 0) : Balanced list := by
  have flat (part : List Token) (none : ∀ token ∈ part, token.step = 0) : level part = 0 :=
    sum_eq_zero (forall_mem_map.mpr none)
  constructor
  · exact flat list each
  · intro n
    exact Int.le_of_eq (flat _ fun token member => each token (mem_of_mem_take member)).symm

theorem cons {token : Token} (still : token.step = 0) {rest : List Token} (balanced : Balanced rest) :
    Balanced (token :: rest) := by
  have single : Balanced [token] := steady (forall_mem_singleton.mpr still)
  exact single.append balanced

theorem pair_positive (opens : opening.step = 1) (balanced : Balanced child) (after : 0 < n)
    (before : n < (opening :: (child ++ [closing])).length) : 0 < level ((opening :: (child ++ [closing])).take n) := by
  obtain ⟨n, rfl⟩ := Nat.exists_eq_succ_of_ne_zero (Nat.ne_of_gt after)
  have short : n ≤ child.length := by
    simp only [length_cons, length_append, length_nil] at before
    omega
  have inside := balanced.inside n
  rw [take_succ_cons, take_append_of_le_length short, level_cons, opens]
  omega

theorem pair (opens : opening.step = 1) (closes : closing.step = -1) (balanced : Balanced child)
    : Balanced (opening :: (child ++ [closing])) := by
  have total : level (opening :: (child ++ [closing])) = 0 := by
    rw [level_cons, level_append, balanced.total, opens, level_cons, closes]
    rfl
  constructor
  · exact total
  · intro n
    by_cases after : 0 < n
    · by_cases before : n < (opening :: (child ++ [closing])).length
      · exact Int.le_of_lt (balanced.pair_positive opens after before)
      · rw [take_of_length_le (Nat.le_of_not_lt before)]
        exact Int.le_of_eq total.symm
    · rw [Nat.eq_zero_of_not_pos after]
      exact Int.le_refl _

theorem block (balanced : Balanced child) : Balanced (blockTokens child) := balanced.pair rfl rfl

end Balanced

theorem Quiet.balanced (quiet : Quiet text) : Balanced (tokens text) := by
  apply Balanced.steady
  intro token member
  cases token with
  | mark c => rfl
  | word word =>
    have other := quiet.plain word member
    have areKeywords : ["module", "begin", "case"] ⊆ keywords ∧ ["endmodule", "end", "endcase"] ⊆ keywords := by decide
    rw [Token.step, if_neg fun opens => other (areKeywords.1 opens), if_neg fun closes => other (areKeywords.2 closes)]

/-! ### Statements -/

theorem Expr.balanced_tokens {expr : Expr} (clean : expr.IsClean choices) : Balanced expr.tokens :=
  (quiet_text clean).balanced

theorem balanced_body (each : ∀ stmt ∈ list, Balanced stmt.tokens) : Balanced (bodyTokens list) := by
  induction list with
  | nil => exact .nil
  | cons first rest ih =>
    obtain ⟨here, later⟩ := forall_mem_cons.mp each
    exact here.append (ih later)

theorem balanced_branches (conditions : ∀ branch ∈ branches, branch.1.IsClean false)
    (bodies : ∀ branch ∈ branches, ∀ stmt ∈ branch.2, Balanced stmt.tokens) (still : Balanced opening)
    : Balanced (branchTokens opening branches) := by
  induction branches generalizing opening with
  | nil => exact .nil
  | cons first rest ih =>
    obtain ⟨isClean, conditions⟩ := forall_mem_cons.mp conditions
    obtain ⟨inBody, bodies⟩ := forall_mem_cons.mp bodies
    have chained : Balanced [.word "else", .word "if"] := .steady (by decide)
    have later := ih conditions bodies chained
    have inner := (balanced_body inBody).block.append later
    exact still.append (((Expr.balanced_tokens isClean).append (inner.cons rfl)).cons rfl)

theorem balanced_else (last : ∀ body ∈ otherwise, ∀ stmt ∈ body, Balanced stmt.tokens) : Balanced (elseTokens otherwise) := by
  cases otherwise with
  | none => exact .nil
  | some body => exact (balanced_body (last body rfl)).block.cons rfl

theorem balanced_default {default : Option (List Stmt)}
    (last : ∀ body ∈ default, ∀ stmt ∈ body, Balanced stmt.tokens) : Balanced (defaultTokens default) := by
  cases default with
  | none => exact .nil
  | some body => exact ((balanced_body (last body rfl)).block.cons rfl).cons rfl

theorem balanced_arms (choices : ∀ arm ∈ arms, ∀ choice ∈ arm.1, choice.IsClean false)
    (bodies : ∀ arm ∈ arms, ∀ stmt ∈ arm.2, Balanced stmt.tokens) : Balanced (armTokens arms) := by
  induction arms with
  | nil => exact .nil
  | cons first rest ih =>
    obtain ⟨areClean, choices⟩ := forall_mem_cons.mp choices
    obtain ⟨inBody, bodies⟩ := forall_mem_cons.mp bodies
    have inner := (balanced_body inBody).block.append (ih choices bodies)
    exact (inert_label areClean).toQuiet.balanced.append (inner.cons rfl)

theorem Stmt.IsTidy.balanced {stmt : Stmt} (tidy : stmt.IsTidy) : Balanced stmt.tokens := by
  induction tidy with
  | assign isPlace isClean oneLine =>
    rename_i target value blocking remarks
    have operator : Balanced (if blocking then [] else [.mark '<']) := by cases blocking <;> exact .steady (by decide)
    have ending : Balanced [.mark ';'] := .steady (by decide)
    have written := (Expr.balanced_tokens isClean).append ending
    exact (Expr.balanced_tokens isPlace.isClean).append (operator.append (written.cons rfl))
  | conditional present conditions bodies last inBodies inLast =>
    exact (balanced_branches conditions inBodies (.steady (by decide))).append (balanced_else inLast)
  | selection isClean choices bodies last inBodies inLast =>
    rename_i unique selector arms default
    have qualifier : Balanced (if unique then [.word "unique"] else []) := by cases unique <;> exact .steady (by decide)
    have inside : Balanced (.mark ')' :: (armTokens arms ++ defaultTokens default)) :=
      ((balanced_arms choices inBodies).append (balanced_default inLast)).cons rfl
    have selected : Balanced (.mark '(' :: (selector.tokens ++ .mark ')' :: (armTokens arms ++ defaultTokens default))) :=
      ((Expr.balanced_tokens isClean).append inside).cons rfl
    have enclosed : Balanced (.word "case" :: (_ ++ [.word "endcase"])) := selected.pair rfl rfl
    have balanced := qualifier.append enclosed
    simp only [cons_append, append_assoc] at balanced
    exact balanced
  | placeholder isTidy => exact .nil

/-! ### Items -/

def AreLevel (lines : List String) : Prop := ∃ list, Scans lines list ∧ Balanced list

namespace AreLevel

theorem nil : AreLevel [] := ⟨[], .nil, .nil⟩

theorem append (left : AreLevel first) (right : AreLevel second) : AreLevel (first ++ second) := by
  obtain ⟨list, scans, balanced⟩ := left
  obtain ⟨others, scansOthers, balancedOthers⟩ := right
  exact ⟨list ++ others, scans.append scansOthers, balanced.append balancedOthers⟩

theorem flatMap {α : Type} {lines : α → List String} {list : List α} (each : ∀ element ∈ list, AreLevel (lines element)) :
    AreLevel (list.flatMap lines) := by
  induction list with
  | nil => exact nil
  | cons first rest ih =>
    obtain ⟨here, later⟩ := forall_mem_cons.mp each
    exact here.append (ih later)

theorem line {line : String} (blank : IsBlankText indent) (quiet : Quiet code) (ignored : IsIgnored comment)
    (spelled : line.toList = indent.toList ++ (code ++ comment) := by simp [toString]) : AreLevel [line] := by
  rw [← append_assoc] at spelled
  exact ⟨_, scans_line spelled (blank.spells quiet.spells) ignored, quiet.balanced⟩

end AreLevel

theorem quiet_of_check (plain : '/' ∉ text ∧ '\n' ∉ text ∧ ∀ word ∈ keywords, .word word ∉ tokens text) : Quiet text :=
  ⟨.of_not_mem plain.1 plain.2.1, fun word member isKeyword => plain.2.2 word isKeyword member⟩

theorem quiet_dimension (dimension : Dimension) : Quiet dimension.text.toList := by
  have range : Quiet (s!"[{dimension.high}:{dimension.low}]").toList := by
    have spelled : (s!"[{dimension.high}:{dimension.low}]").toList =
        '[' :: ((toString dimension.high).toList ++ ':' :: ((toString dimension.low).toList ++ ']' :: [])) := by
      simp [toString]
    rw [spelled]
    exact .cons rfl ((isNumber_toString _).quiet.mark rfl ((isNumber_toString _).quiet.mark rfl .nil))
  rw [Dimension.text]
  split
  · have signed : Quiet "signed".toList := quiet_of_check (by decide)
    have spelled : ("signed " ++ s!"[{dimension.high}:{dimension.low}]").toList =
        "signed".toList ++ ' ' :: (s!"[{dimension.high}:{dimension.low}]").toList := by
      rw [String.toList_append]
      rfl
    rw [spelled]
    exact signed.mark rfl range
  · exact range

theorem quiet_dimensionText (dimension : Option Dimension) :
    Quiet (dimensionText dimension).toList ∧ ∀ c ∈ (dimensionText dimension).toList.head?, inWord c = false := by
  cases dimension with
  | none => exact ⟨.nil, nofun⟩
  | some dimension =>
    have spelled : (dimensionText (some dimension)).toList = ' ' :: dimension.text.toList := by
      rw [dimensionText, String.toList_append]
      rfl
    rw [spelled]
    refine ⟨.cons rfl (quiet_dimension dimension), ?_⟩
    intro c same
    cases same
    decide

theorem quiet_member (isName : IsPlainName name) (width code : Nat) : Quiet (s!"{name} = {width}'d{code}").toList := by
  have spelled : (s!"{name} = {width}'d{code}").toList =
      name.toList ++ ' ' :: '=' :: ' ' :: ((toString width).toList ++ '\x27' :: 'd' :: (toString code).toList) := by
    simp [toString]
  have figures := isFigure_toString code
  have letters : ∀ c ∈ 'd' :: (toString code).toList, inWord c = true :=
    forall_mem_cons.mpr ⟨rfl, fun c member => inWord_of_isFigure (figures c member)⟩
  have value : Quiet ((toString width).toList ++ '\x27' :: 'd' :: (toString code).toList) :=
    (isNumber_toString width).quiet.mark rfl (.word letters (not_mem_keywords_based (by decide) figures))
  rw [spelled]
  exact isName.quiet.mark rfl (.cons rfl (.cons rfl value))

theorem quiet_memberList {enum : Enumeration} (members : ∀ member ∈ enum.members, IsPlainName member.1) :
    Quiet enum.memberList.toList := by
  rw [Enumeration.memberList, String.toList_intercalate]
  apply intercalate_of_each .nil
  · intro first second left right
    rw [append_assoc]
    exact left.mark rfl (.cons rfl right)
  · intro text inTexts
    obtain ⟨_, isText, rfl⟩ := mem_map.mp inTexts
    obtain ⟨member, isMember, rfl⟩ := mem_map.mp isText
    exact quiet_member (members member isMember) enum.width member.2

def Trigger.IsTidy : Trigger → Prop
  | .inputs header => Quiet header.toList
  | .edges keyword events => IsPlainName keyword ∧ ∀ event ∈ events, IsPlainName event.2

theorem Trigger.IsTidy.quiet {trigger : Trigger} (tidy : trigger.IsTidy) : Quiet trigger.text.toList := by
  cases trigger with
  | inputs header => exact tidy
  | edges keyword events =>
    have listed : Quiet (" or ".intercalate (events.map fun event => s!"{event.1.text} {event.2}")).toList := by
      rw [String.toList_intercalate]
      apply intercalate_of_each .nil
      · intro first second left right
        have between : Quiet "or".toList := quiet_of_check (by decide)
        have joined := left.mark (c := ' ') rfl (between.mark (c := ' ') rfl right)
        simpa using joined
      · intro text inTexts
        obtain ⟨_, isText, rfl⟩ := mem_map.mp inTexts
        obtain ⟨event, isEvent, rfl⟩ := mem_map.mp isText
        have edge : Quiet event.1.text.toList := by
          cases event.1 <;> exact quiet_of_check (by decide)
        have joined := edge.mark (c := ' ') rfl (tidy.2 event isEvent).quiet
        simpa [toString] using joined
    have spelled : (Trigger.edges keyword events).text.toList = keyword.toList ++ ' ' :: '@' :: '(' ::
        ((" or ".intercalate (events.map fun event => s!"{event.1.text} {event.2}")).toList ++ ')' :: []) := by
      simp [Trigger.text]
    rw [spelled]
    exact tidy.1.quiet.mark rfl (.cons rfl (.cons rfl (listed.mark rfl .nil)))

/-- Items of plain names and clean expressions, all of whose comments end with their lines. -/
def Item.IsTidy : Item → Prop
  | .enumType enum _ | .enumNote enum => IsPlainName enum.name ∧ ∀ member ∈ enum.members, IsPlainName member.1
  | .parameter type _ name value remarks =>
    (type.isEmpty = false → IsPlainName type) ∧ IsPlainName name ∧ value.IsClean true ∧
      ∀ remark ∈ remarks, '\n' ∉ remark.text.toList
  | .object type _ name init remarks =>
    IsPlainName type ∧ IsPlainName name ∧ (∀ value ∈ init, value.IsClean true) ∧
      ∀ remark ∈ remarks, '\n' ∉ remark.text.toList
  | .assign target value remarks => target.IsPlace ∧ value.IsClean true ∧ ∀ remark ∈ remarks, '\n' ∉ remark.text.toList
  | .always trigger label body => trigger.IsTidy ∧ (∀ name ∈ label, IsPlainName name) ∧ ∀ stmt ∈ body, stmt.IsTidy
  | .placeholder comment => comment.IsTidy

theorem isIgnored_nil : IsIgnored [] := ⟨nofun, nofun⟩

theorem quiet_given {value : Expr} (isClean : value.IsClean true) :
    Quiet ('=' :: ' ' :: (value.text.toList ++ ';' :: [])) :=
  .cons rfl (.cons rfl ((Expr.quiet_text isClean).mark rfl .nil))

theorem quiet_qualifier (typeName : type.isEmpty = false → IsPlainName type) (dimension : Option Dimension)
    (isName : IsPlainName name) :
    Quiet (" ".intercalate ((if type.isEmpty then [] else [type]) ++ dimension.toList.map Dimension.text ++
      [name])).toList := by
  rw [String.toList_intercalate]
  apply intercalate_of_each .nil
  · intro first second left right
    rw [append_assoc]
    exact left.mark rfl right
  · intro text inTexts
    obtain ⟨word, isWord, rfl⟩ := mem_map.mp inTexts
    simp only [mem_append, mem_map, mem_singleton] at isWord
    obtain (isType | ⟨range, _, rfl⟩) | rfl := isWord
    · split at isType
      · nomatch isType
      · rename_i present
        cases mem_singleton.mp isType
        exact (typeName (Bool.eq_false_iff.mpr present)).quiet
    · exact quiet_dimension range
    · exact isName.quiet

section Items

variable {unit : String} (blank : IsBlankText unit)

include blank

theorem areLevel_always (depth : Nat) (isTidy : trigger.IsTidy) (names : ∀ name ∈ label, IsPlainName name)
    (tidy : ∀ stmt ∈ body, stmt.IsTidy) : AreLevel ((Item.always trigger label body).lines unit depth) := by
  have named (suffix : String) (quiet : Quiet suffix.toList) (apart : ∀ c ∈ suffix.toList.head?, inWord c = false) :
      AreLevel ((pad unit depth ++ s!"{trigger.text} begin{suffix}") :: bodyLines unit (depth + 1) body ++
        [pad unit depth ++ "end"]) := by
    have begins : Spells "begin".toList [.word "begin"] := .fixed
    have spells := isTidy.quiet.spells.mark (c := ' ') (begins.append quiet.spells apart)
    have header : Scans [pad unit depth ++ s!"{trigger.text} begin{suffix}"] _ :=
      scans_words blank depth (by simpa [toString] using spells)
    have inner := scans_body (fun stmt member => (tidy stmt member).scans blank) (depth + 1)
    have balanced : Balanced (.word "begin" :: (tokens suffix.toList ++ bodyTokens body ++ [.word "end"])) :=
      (quiet.balanced.append (balanced_body fun stmt member => (tidy stmt member).balanced)).pair rfl rfl
    refine ⟨_, header.cons (inner.append (scans_end blank depth)), ?_⟩
    have all := isTidy.quiet.balanced.append balanced
    simp only [append_assoc] at all
    simpa [markOf] using all
  cases label with
  | none => exact named "" .nil (by simp)
  | some name =>
    have isName := names name rfl
    have spelled : (s!" : {name}").toList = ' ' :: ':' :: ' ' :: name.toList := by simp [toString]
    apply named s!" : {name}"
    · rw [spelled]
      exact .cons rfl (.cons rfl (.cons rfl isName.quiet))
    · rw [spelled]
      intro c same
      cases same
      decide

theorem Item.IsTidy.areLevel {item : Item} (tidy : item.IsTidy) (depth : Nat) : AreLevel (item.lines unit depth) := by
  have indented := blank.pad depth
  cases item with
  | enumType enum dimension =>
    have type : Quiet "typedef enum logic".toList := quiet_of_check (by decide)
    obtain ⟨dimensionQuiet, apart⟩ := quiet_dimensionText dimension
    have named : Quiet (enum.name.toList ++ ';' :: []) := tidy.1.quiet.mark rfl .nil
    have members : Quiet (' ' :: '\x7b' :: (enum.memberList.toList ++ '\x7d' :: ' ' :: (enum.name.toList ++ ';' :: []))) :=
      .cons rfl (.cons rfl ((quiet_memberList tidy.2).mark rfl (.cons rfl named)))
    have all := (type.append dimensionQuiet apart).append members (by intro c same; cases same; decide)
    exact .line indented all isIgnored_nil
  | enumNote enum =>
    have named : Quiet (' ' :: (enum.name.toList ++ ':' :: ' ' :: enum.memberList.toList)) :=
      .cons rfl (tidy.1.quiet.mark rfl (.cons rfl (quiet_memberList tidy.2)))
    exact .line indented .nil (isIgnored_comment named.oneLine)
  | parameter type dimension name value remarks =>
    obtain ⟨typeName, isName, valueClean, oneLine⟩ := tidy
    have word : Quiet "localparam".toList := quiet_of_check (by decide)
    have qualified := quiet_qualifier typeName dimension isName
    have all := word.mark (c := ' ') rfl (qualified.mark (c := ' ') rfl (quiet_given valueClean))
    exact .line indented all (isIgnored_trailing oneLine)
  | object type dimension name init remarks =>
    obtain ⟨typeName, isName, valueClean, oneLine⟩ := tidy
    obtain ⟨dimensionQuiet, apart⟩ := quiet_dimensionText dimension
    have declared : Quiet (type.toList ++ (dimensionText dimension).toList ++ ' ' :: name.toList) :=
      (typeName.quiet.append dimensionQuiet apart).mark rfl isName.quiet
    cases init with
    | none =>
      have all := declared.mark (c := ';') rfl .nil
      exact .line indented all (isIgnored_trailing oneLine)
    | some value =>
      have all := declared.mark (c := ' ') rfl (quiet_given (valueClean value rfl))
      exact .line indented all (isIgnored_trailing oneLine)
  | assign target value remarks =>
    obtain ⟨isPlace, valueClean, oneLine⟩ := tidy
    have word : Quiet "assign".toList := quiet_of_check (by decide)
    have placed := (Expr.quiet_text isPlace.isClean).mark (c := ' ') rfl (quiet_given valueClean)
    have all := word.mark (c := ' ') rfl placed
    exact .line indented all (isIgnored_trailing oneLine)
  | always trigger label body => exact areLevel_always blank depth tidy.1 tidy.2.1 tidy.2.2
  | placeholder comment => exact ⟨[], scans_placeholder indented tidy, .nil⟩

/-! ### Modules -/

structure Port.IsTidy (port : Port) : Prop where
  direction : IsPlainName port.direction
  type : IsPlainName port.type
  name : IsPlainName port.name

omit blank in
theorem Port.IsTidy.quiet {port : Port} (tidy : port.IsTidy) : Quiet port.text.toList := by
  obtain ⟨dimensionQuiet, apart⟩ := quiet_dimensionText port.dimension
  have typed := (tidy.type.quiet.append dimensionQuiet apart).mark (c := ' ') rfl tidy.name.quiet
  have all := tidy.direction.quiet.mark (c := ' ') rfl typed
  simpa [Port.text, toString] using all

theorem areLevel_ports (tidy : ∀ port ∈ ports, port.IsTidy) : AreLevel (Module.portLines unit ports) := by
  induction ports with
  | nil => exact .nil
  | cons port rest ih =>
    obtain ⟨isTidy, tidy⟩ := forall_mem_cons.mp tidy
    have here := isTidy.quiet
    cases rest with
    | nil => exact .line blank here isIgnored_nil
    | cons second others =>
      have listed : AreLevel [unit ++ port.text ++ ","] := .line blank (here.mark (c := ',') rfl .nil) isIgnored_nil
      exact listed.append (ih tidy)

structure Module.IsTidy (module : Module) : Prop where
  name : IsPlainName module.name
  banner : '\n' ∉ module.banner.toList
  ports : ∀ port ∈ module.ports, port.IsTidy
  items : ∀ group ∈ module.groups, ∀ item ∈ group, item.IsTidy

omit blank in
theorem scans_moduleLine {line : String} {text : List Char} (quiet : Quiet text)
    (spelled : line.toList = "module".toList ++ ' ' :: text) : Scans [line] (.word "module" :: tokens text) := by
  have word : Spells "module".toList [.word "module"] := .fixed
  exact scans_line (spelled.trans (append_nil _).symm) (word.mark quiet.spells) isIgnored_nil

theorem scans_opening {module : Module} (tidy : module.IsTidy) :
    ∃ list, Balanced list ∧ Scans (if module.ports.isEmpty then [s!"module {module.name};"]
      else s!"module {module.name} (" :: Module.portLines unit module.ports ++ [");"]) (.word "module" :: list) := by
  split
  · have named : Quiet (module.name.toList ++ ';' :: []) := tidy.name.quiet.mark rfl .nil
    exact ⟨_, named.balanced, scans_moduleLine named (by simp [toString])⟩
  · have named : Quiet (module.name.toList ++ ' ' :: '(' :: []) :=
      tidy.name.quiet.mark rfl (.cons rfl .nil)
    have header : Scans [s!"module {module.name} ("] (.word "module" :: tokens _) :=
      scans_moduleLine named (by simp [toString])
    obtain ⟨list, scans, balanced⟩ := areLevel_ports blank tidy.ports
    have closing : Scans [");"] [.mark ')', .mark ';'] := ⟨by decide, by decide⟩
    have ending : Balanced [.mark ')', .mark ';'] := .steady (by decide)
    exact ⟨_, named.balanced.append (balanced.append ending), header.cons (scans.append closing)⟩

theorem Module.IsTidy.scan_text {module : Module} (tidy : module.IsTidy) :
    ∃ inner, Balanced inner ∧ scan (module.text unit).toList = .word "module" :: (inner ++ [.word "endmodule"]) := by
  have empty : Scans [""] [] := ⟨rfl, by decide⟩
  have banner : Scans [s!"// {module.banner}"] [] := by
    have comment : '\n' ∉ ' ' :: module.banner.toList := not_mem_cons_of_ne_of_not_mem (by decide) tidy.banner
    have spelled : (s!"// {module.banner}").toList = [] ++ '/' :: '/' :: ' ' :: module.banner.toList := by
      simp [toString]
    exact scans_line spelled .nil (isIgnored_comment comment)
  have groups : AreLevel (module.groups.flatMap fun group => "" :: group.flatMap (Item.lines unit 1)) := by
    apply AreLevel.flatMap
    intro group isGroup
    have items : AreLevel (group.flatMap (Item.lines unit 1)) := by
      apply AreLevel.flatMap
      intro item isItem
      exact (tidy.items group isGroup item isItem).areLevel blank 1
    exact AreLevel.append ⟨[], empty, .nil⟩ items
  have ending : Scans ["", "endmodule"] [.word "endmodule"] := ⟨by decide, by decide⟩
  obtain ⟨first, firstBalanced, opening⟩ := scans_opening blank tidy
  obtain ⟨list, scans, balanced⟩ := groups
  have lines : Scans (module.lines unit) (.word "module" :: (first ++ list ++ [.word "endmodule"])) := by
    have all := banner.cons ((opening.append scans).append ending)
    simpa [Module.lines] using all
  exact ⟨first ++ list, firstBalanced.append balanced, lines.scan_text⟩

end Items

end RtlBridge.Verilog
