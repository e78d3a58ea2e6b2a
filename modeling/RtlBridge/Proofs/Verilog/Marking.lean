import RtlBridge.Proofs.Emission.ReadNames

/-! The text of a module in pieces, which tell what each name in it is there for: to be declared, to name a block, or
to be used in an expression, as a target or as an event. Comments are pieces of their own. Put together the pieces are
the text, and the names that are used are those of the expressions, targets and events of the module. -/

namespace RtlBridge.Verilog

open List

/-- What a piece of text is there for. A comment can mention the members of an enumeration. -/
inductive Mark where
  | code
  | comment
  | declares
  | mentions
  | labels
  | uses
deriving Repr, DecidableEq

def Mark.isNaming : Mark → Bool
  | .code => false
  | .comment => false
  | _ => true

@[simp] theorem Mark.isNaming_code : Mark.code.isNaming = false := by decide

@[simp] theorem Mark.isNaming_comment : Mark.comment.isNaming = false := by decide

structure Fragment where
  mark : Mark
  text : String
deriving Repr, DecidableEq

def code (text : String) : Fragment := ⟨.code, text⟩

def textOf : List Fragment → String
  | [] => ""
  | first :: rest => first.text ++ textOf rest

def named (mark : Mark) (fragments : List Fragment) : List String :=
  (fragments.filter fun fragment => fragment.mark = mark).map Fragment.text

@[simp] theorem textOf_nil : textOf [] = "" := rfl

@[simp] theorem textOf_cons (first : Fragment) (rest : List Fragment) : textOf (first :: rest) = first.text ++ textOf rest :=
  rfl

@[simp] theorem textOf_append (first second : List Fragment) : textOf (first ++ second) = textOf first ++ textOf second := by
  induction first with
  | nil => simp
  | cons fragment rest ih => rw [cons_append, textOf_cons, textOf_cons, ih, String.append_assoc]

@[simp] theorem text_code (text : String) : (code text).text = text := rfl

@[simp] theorem mark_code (text : String) : (code text).mark = .code := rfl

@[simp] theorem named_nil (mark : Mark) : named mark [] = [] := rfl

@[simp] theorem named_append (mark : Mark) (first second : List Fragment) :
    named mark (first ++ second) = named mark first ++ named mark second := by simp [named]

theorem named_flatten (mark : Mark) (lists : List (List Fragment)) :
    named mark lists.flatten = lists.flatMap (named mark) := by
  induction lists with
  | nil => rfl
  | cons first rest ih => rw [flatten_cons, named_append, ih, flatMap_cons]

theorem mem_named : name ∈ named mark fragments ↔ ⟨mark, name⟩ ∈ fragments := by
  simp only [named, mem_map, mem_filter, decide_eq_true_eq]
  constructor
  · rintro ⟨⟨_, _⟩, ⟨member, rfl⟩, rfl⟩
    exact member
  · intro member
    exact ⟨_, ⟨member, rfl⟩, rfl⟩

def Mark.only (kind mark : Mark) (names : List String) : List String := if mark = kind then names else []

namespace Mark

variable (kind mark : Mark)

@[simp] theorem only_append (first second : List String) :
    kind.only mark (first ++ second) = kind.only mark first ++ kind.only mark second := by
  unfold only
  split <;> rfl

@[simp] theorem only_nil : kind.only mark [] = [] := ite_self _

@[simp] theorem only_self (names : List String) : kind.only kind names = names := if_pos rfl

@[simp] theorem only_flatMap {α : Type} (list : List α) (names : α → List String) :
    kind.only mark (list.flatMap names) = list.flatMap fun element => kind.only mark (names element) := by
  unfold only
  split <;> simp

theorem only_map {α : Type} (list : List α) (name : α → String) :
    kind.only mark (list.map name) = list.flatMap fun element => kind.only mark [name element] := by
  rw [map_eq_flatMap, only_flatMap]

variable {kind mark}

@[simp] theorem only_plain (isNaming : mark.isNaming = true) (isPlain : kind.isNaming = false) (names : List String) :
    kind.only mark names = [] := by
  apply if_neg
  intro same
  rw [← same, isNaming] at isPlain
  cases isPlain

end Mark

@[simp] theorem named_cons (mark kind : Mark) (text : String) (rest : List Fragment) :
    named mark (⟨kind, text⟩ :: rest) = kind.only mark [text] ++ named mark rest := by
  by_cases same : mark = kind
  · simp [named, same]
  · simp [named, Mark.only, same, Ne.symm same]

@[simp] theorem named_code (isNaming : mark.isNaming = true) (text : String) (rest : List Fragment) :
    named mark (code text :: rest) = named mark rest := by
  rw [code, named_cons, Mark.only_plain isNaming rfl, nil_append]

def separatedBy (separator : Fragment) : List (List Fragment) → List Fragment
  | [] => []
  | [only] => only
  | first :: second :: rest => first ++ separator :: separatedBy separator (second :: rest)

@[simp] theorem textOf_separatedBy (separator : Fragment) (lists : List (List Fragment)) :
    textOf (separatedBy separator lists) = separator.text.intercalate (lists.map textOf) := by
  induction lists with
  | nil => rfl
  | cons first rest ih =>
    cases rest with
    | nil => rw [separatedBy, map_singleton, String.intercalate_singleton]
    | cons second others =>
      rw [separatedBy, textOf_append, textOf_cons, ih, map_cons, map_cons, map_cons,
        String.intercalate_cons_cons, String.append_assoc]

@[simp] theorem named_separatedBy (isNaming : mark.isNaming = true) (isPlain : separator.mark.isNaming = false)
    (lists : List (List Fragment)) : named mark (separatedBy separator lists) = lists.flatMap (named mark) := by
  induction lists with
  | nil => rfl
  | cons first rest ih =>
    cases rest with
    | nil => simp [separatedBy]
    | cons second others =>
      rw [separatedBy, named_append, named_cons, Mark.only_plain isNaming isPlain, ih]
      rfl

/-! ### Expressions -/

attribute [local simp] String.append_assoc toString flatMap_map Function.comp_def

def Expr.marked : Expr → List Fragment
  | .name text => [⟨.uses, text⟩]
  | .number digits => [code digits]
  | .sized width base digits => [code s!"{width}'{base.letter}{digits}"]
  | .fill bit => [code s!"'{bit}"]
  | .unary op operand => code op.text :: operand.marked
  | .binary op lhs rhs => lhs.marked ++ code (" " ++ op.text ++ " ") :: rhs.marked
  | .paren inner => code "(" :: inner.marked ++ [code ")"]
  | .concat parts => code "\x7b" :: separatedBy (code ", ") (markedAll parts) ++ [code "\x7d"]
  | .replicate count part => code ("\x7b" ++ toString count ++ "\x7b") :: part.marked ++ [code "\x7d\x7d"]
  | .index base subscript => base.marked ++ code "[" :: subscript.marked ++ [code "]"]
  | .slice base left right => base.marked ++ code "[" :: left.marked ++ code ":" :: right.marked ++ [code "]"]
  | .choose condition yes no => condition.marked ++ code " ? " :: yes.marked ++ code " : " :: no.marked
where
  markedAll : List Expr → List (List Fragment)
    | [] => []
    | first :: rest => first.marked :: markedAll rest

theorem Expr.markedAll_eq_map : ∀ list, marked.markedAll list = list.map marked := eq_map rfl fun _ _ => rfl

@[simp] theorem Expr.textOf_marked (expr : Expr) : textOf expr.marked = expr.text := by
  induction expr using Expr.induction with
  | concat parts inParts =>
    have each : (marked.markedAll parts).map textOf = text.texts parts := by
      induction parts with
      | nil => rfl
      | cons part rest ih =>
        obtain ⟨here, others⟩ := forall_mem_cons.mp inParts
        rw [marked.markedAll, map_cons, here, ih others, text.texts]
    simp [marked, text, each]
  | _ => simp_all [marked, text, String.append_assoc, toString]

@[simp] theorem Expr.named_marked (isNaming : mark.isNaming = true) (expr : Expr) :
    named mark expr.marked = Mark.uses.only mark expr.names := by
  induction expr using Expr.induction with
  | name text => rw [marked, named_cons, named_nil, append_nil, names]
  | concat parts inParts =>
    rw [marked, cons_append, named_code isNaming, named_append, named_separatedBy isNaming rfl,
      named_code isNaming, named_nil, append_nil, markedAll_eq_map, flatMap_map, names, namesAll_eq_flatMap, Mark.only_flatMap]
    exact flatMap_congr inParts
  | _ => simp_all [marked, names]

/-! ### Statements -/

mutual

def Stmt.marked (unit : String) (depth : Nat) : Stmt → List (List Fragment)
  | .assign target blocking value remarks =>
    [code (pad unit depth) :: target.marked ++ code (if blocking then " = " else " <= ") :: value.marked ++
      [code ";", ⟨.comment, trailing remarks⟩]]
  | .conditional branches otherwise =>
    branchMarked unit depth "if" branches ++ elseMarked unit depth otherwise ++ [[code (pad unit depth ++ "end")]]
  | .selection unique selector arms default =>
    (code (pad unit depth ++ if unique then "unique case (" else "case (") :: selector.marked ++ [code ")"]) ::
      armMarked unit (depth + 1) arms ++ defaultMarked unit (depth + 1) default ++
      [[code (pad unit depth ++ "endcase")]]
  | .placeholder comment => comment.lines.map fun line => [code (pad unit depth), ⟨.comment, line⟩]

def bodyMarked (unit : String) (depth : Nat) : List Stmt → List (List Fragment)
  | [] => []
  | first :: rest => first.marked unit depth ++ bodyMarked unit depth rest

def branchMarked (unit : String) (depth : Nat) (word : String) : List (Expr × List Stmt) → List (List Fragment)
  | [] => []
  | (condition, body) :: rest =>
    (code (pad unit depth ++ word ++ " (") :: condition.marked ++ [code ") begin"]) ::
      bodyMarked unit (depth + 1) body ++ branchMarked unit depth "end else if" rest

def elseMarked (unit : String) (depth : Nat) : Option (List Stmt) → List (List Fragment)
  | none => []
  | some body => [code (pad unit depth ++ "end else begin")] :: bodyMarked unit (depth + 1) body

def armMarked (unit : String) (depth : Nat) : List (List Expr × List Stmt) → List (List Fragment)
  | [] => []
  | (choices, body) :: rest =>
    (code (pad unit depth) :: separatedBy (code ", ") (choices.map Expr.marked) ++ [code ": begin"]) ::
      bodyMarked unit (depth + 1) body ++ [code (pad unit depth ++ "end")] :: armMarked unit depth rest

def defaultMarked (unit : String) (depth : Nat) : Option (List Stmt) → List (List Fragment)
  | none => []
  | some body =>
    [code (pad unit depth ++ "default: begin")] :: bodyMarked unit (depth + 1) body ++
      [[code (pad unit depth ++ "end")]]

end

mutual

/-- The names in the expressions and targets of a statement, in the order of its text. -/
def Stmt.uses : Stmt → List String
  | .assign target _ value _ => target.names ++ value.names
  | .conditional branches otherwise => branchUses branches ++ optionUses otherwise
  | .selection _ selector arms default => selector.names ++ armUses arms ++ optionUses default
  | .placeholder _ => []

def bodyUses : List Stmt → List String
  | [] => []
  | first :: rest => first.uses ++ bodyUses rest

def branchUses : List (Expr × List Stmt) → List String
  | [] => []
  | (condition, body) :: rest => condition.names ++ bodyUses body ++ branchUses rest

def armUses : List (List Expr × List Stmt) → List String
  | [] => []
  | (choices, body) :: rest => choices.flatMap Expr.names ++ bodyUses body ++ armUses rest

def optionUses : Option (List Stmt) → List String
  | none => []
  | some body => bodyUses body

end

theorem bodyUses_eq_flatMap : ∀ body, bodyUses body = body.flatMap Stmt.uses := eq_flatMap rfl fun _ _ => rfl

theorem branchUses_eq_flatMap : ∀ branches,
    branchUses branches = branches.flatMap fun branch => branch.1.names ++ bodyUses branch.2 :=
  eq_flatMap rfl fun _ _ => rfl

theorem armUses_eq_flatMap : ∀ arms,
    armUses arms = arms.flatMap fun arm => arm.1.flatMap Expr.names ++ bodyUses arm.2 := eq_flatMap rfl fun _ _ => rfl

/-- Pieces of lines with certain texts, where certain names are used and no other name is marked. -/
structure Marks (lines uses : List String) (marked : List (List Fragment)) : Prop where
  texts : marked.map textOf = lines
  names : ∀ mark, mark.isNaming = true → named mark marked.flatten = Mark.uses.only mark uses

namespace Marks

theorem nil : Marks [] [] [] := ⟨rfl, fun _ _ => (Mark.only_nil ..).symm⟩

theorem append (first : Marks lines uses marked) (second : Marks moreLines moreUses more) :
    Marks (lines ++ moreLines) (uses ++ moreUses) (marked ++ more) where
  texts := by rw [map_append, first.texts, second.texts]
  names mark isNaming := by
    rw [flatten_append, named_append, first.names mark isNaming, second.names mark isNaming, Mark.only_append]

theorem cons {line : String} {lines uses moreUses : List String} {fragments : List Fragment}
    {marked : List (List Fragment)} (text : textOf fragments = line)
    (names : ∀ mark, mark.isNaming = true → named mark fragments = Mark.uses.only mark uses)
    (rest : Marks lines moreUses marked) : Marks (line :: lines) (uses ++ moreUses) (fragments :: marked) where
  texts := by rw [map_cons, text, rest.texts]
  names mark isNaming := by
    rw [flatten_cons, named_append, names mark isNaming, rest.names mark isNaming, Mark.only_append]

theorem plain (line : String) : Marks [line] [] [[code line]] where
  texts := by simp
  names mark isNaming := by simp [isNaming]

end Marks

theorem Placeholder.marks (indent : String) (comment : Placeholder) :
    Marks (comment.lines.map fun line => indent ++ line) []
      (comment.lines.map fun line => [code indent, ⟨.comment, line⟩]) where
  texts := by simp
  names mark isNaming := by simp [named_flatten, isNaming]

section

variable {unit : String}

def Stmt.IsMarked (unit : String) (stmt : Stmt) : Prop :=
  ∀ depth, Marks (stmt.lines unit depth) stmt.uses (stmt.marked unit depth)

theorem bodyMarked_marks (each : ∀ inner ∈ body, inner.IsMarked unit) (depth : Nat) :
    Marks (bodyLines unit depth body) (bodyUses body) (bodyMarked unit depth body) := by
  induction body with
  | nil => exact .nil
  | cons first rest ih =>
    obtain ⟨here, others⟩ := forall_mem_cons.mp each
    rw [bodyLines, bodyUses, bodyMarked]
    exact (here depth).append (ih others)

theorem branchMarked_marks (each : ∀ branch ∈ branches, ∀ inner ∈ branch.2, inner.IsMarked unit) (depth : Nat)
    (word : String) :
    Marks (branchLines unit depth word branches) (branchUses branches) (branchMarked unit depth word branches) := by
  induction branches generalizing word with
  | nil => exact .nil
  | cons branch rest ih =>
    obtain ⟨condition, body⟩ := branch
    obtain ⟨here, others⟩ := forall_mem_cons.mp each
    rw [branchLines, branchUses, branchMarked, append_assoc]
    refine .cons ?_ (fun mark isNaming => ?_) ((bodyMarked_marks here (depth + 1)).append (ih others _))
    · simp
    · simp [isNaming]

theorem armMarked_marks (each : ∀ arm ∈ arms, ∀ inner ∈ arm.2, inner.IsMarked unit) (depth : Nat) :
    Marks (armLines unit depth arms) (armUses arms) (armMarked unit depth arms) := by
  induction arms with
  | nil => exact .nil
  | cons arm rest ih =>
    obtain ⟨choices, body⟩ := arm
    obtain ⟨here, others⟩ := forall_mem_cons.mp each
    rw [armLines, armUses, armMarked, append_assoc]
    have closing := (Marks.plain (pad unit depth ++ "end")).append (ih others)
    refine .cons ?_ (fun mark isNaming => ?_) ((bodyMarked_marks here (depth + 1)).append closing)
    · simp
    · simp [isNaming]

theorem Stmt.isMarked (stmt : Stmt) : stmt.IsMarked unit := by
  induction stmt using Stmt.induction with
  | assign target blocking value remarks =>
    intro depth
    rw [lines, uses, marked, ← append_nil (target.names ++ value.names)]
    refine .cons ?_ (fun mark isNaming => ?_) .nil
    · cases blocking <;> simp
    · simp [isNaming]
  | conditional branches otherwise inBranches inOtherwise =>
    intro depth
    have atElse : Marks (elseLines unit depth otherwise) (optionUses otherwise) (elseMarked unit depth otherwise) := by
      cases otherwise with
      | none => exact .nil
      | some body =>
        rw [elseLines, optionUses, elseMarked]
        exact (Marks.plain _).append (bodyMarked_marks (inOtherwise body rfl) (depth + 1))
    rw [lines, uses, marked, ← append_nil (branchUses branches ++ optionUses otherwise)]
    exact ((branchMarked_marks inBranches depth "if").append atElse).append (.plain _)
  | selection unique selector arms default inArms inDefault =>
    intro depth
    have atDefault : Marks (defaultLines unit (depth + 1) default) (optionUses default)
        (defaultMarked unit (depth + 1) default) := by
      cases default with
      | none => exact .nil
      | some body =>
        rw [defaultLines, optionUses, defaultMarked, ← append_nil (bodyUses body)]
        exact (Marks.plain _).append ((bodyMarked_marks (inDefault body rfl) (depth + 2)).append (.plain _))
    rw [lines, uses, marked, ← append_nil (selector.names ++ armUses arms ++ optionUses default)]
    refine ((Marks.cons ?_ (fun mark isNaming => ?_) (armMarked_marks inArms (depth + 1))).append atDefault).append
      (.plain _)
    · cases unique <;> simp
    · simp [isNaming]
  | placeholder comment =>
    intro depth
    rw [lines, uses, marked]
    exact comment.marks (pad unit depth)

theorem body_marks (depth : Nat) (body : List Stmt) :
    Marks (bodyLines unit depth body) (bodyUses body) (bodyMarked unit depth body) :=
  bodyMarked_marks (fun inner _ => inner.isMarked) depth

end

/-! ### Items -/

def Trigger.marked : Trigger → List Fragment
  | .inputs header => [code header]
  | .edges keyword events =>
    code (keyword ++ " @(") ::
      separatedBy (code " or ") (events.map fun event => [code (event.1.text ++ " "), ⟨.uses, event.2⟩]) ++ [code ")"]

/-- The members of an enumeration with their numbers, in code or in a comment. -/
def Enumeration.marked (enum : Enumeration) (name plain : Mark) : List Fragment :=
  separatedBy ⟨plain, ", "⟩ (enum.members.map fun member => [⟨name, member.1⟩, ⟨plain, s!" = {enum.width}'d{member.2}"⟩])

def Item.marked (unit : String) (depth : Nat) : Item → List (List Fragment)
  | .enumType enum dimension =>
    [code (pad unit depth ++ "typedef enum logic" ++ dimensionText dimension ++ " \x7b") ::
      enum.marked .declares .code ++ [code ("\x7d " ++ enum.name ++ ";")]]
  | .enumNote enum => [code (pad unit depth) :: ⟨.comment, s!"// {enum.name}: "⟩ :: enum.marked .mentions .comment]
  | .parameter type dimension name value remarks =>
    let qualifier := (if type.isEmpty then "" else type ++ " ") ++
      (dimension.map fun dimension => dimension.text ++ " ").getD ""
    [code (pad unit depth ++ "localparam " ++ qualifier) :: ⟨.declares, name⟩ :: code " = " :: value.marked ++
      [code ";", ⟨.comment, trailing remarks⟩]]
  | .object type dimension name init remarks =>
    let value := match init with
      | some value => code " = " :: value.marked
      | none => []
    [code (pad unit depth ++ type ++ dimensionText dimension ++ " ") :: ⟨.declares, name⟩ :: value ++
      [code ";", ⟨.comment, trailing remarks⟩]]
  | .assign target value remarks =>
    [code (pad unit depth ++ "assign ") :: target.marked ++ code " = " :: value.marked ++
      [code ";", ⟨.comment, trailing remarks⟩]]
  | .always trigger label body =>
    let name := match label with
      | some label => [code " : ", ⟨.labels, label⟩]
      | none => []
    (code (pad unit depth) :: trigger.marked ++ code " begin" :: name) :: bodyMarked unit (depth + 1) body ++
      [[code (pad unit depth ++ "end")]]
  | .placeholder comment => comment.lines.map fun line => [code (pad unit depth), ⟨.comment, line⟩]

namespace Item

def declares : Item → List String
  | .enumType enum _ => enum.members.map Prod.fst
  | .parameter _ _ name _ _ => [name]
  | .object _ _ name _ _ => [name]
  | _ => []

def mentions : Item → List String
  | .enumNote enum => enum.members.map Prod.fst
  | _ => []

def labels : Item → List String
  | .always _ label _ => label.toList
  | _ => []

def uses : Item → List String
  | .parameter _ _ _ value _ => value.names
  | .object _ _ _ init _ => init.toList.flatMap Expr.names
  | .assign target value _ => target.names ++ value.names
  | .always trigger _ body => trigger.reads ++ bodyUses body
  | _ => []

end Item

@[simp] theorem Enumeration.textOf_marked (enum : Enumeration) (name plain : Mark) :
    textOf (enum.marked name plain) = enum.memberList := by
  rw [marked, textOf_separatedBy, map_map, memberList]
  congr 1
  apply map_congr_left
  intro member _
  simp

theorem Enumeration.named_marked (isNaming : mark.isNaming = true) (enum : Enumeration) (name : Mark)
    (isPlain : plain.isNaming = false) :
    named mark (enum.marked name plain) = name.only mark (enum.members.map Prod.fst) := by
  rw [marked, named_separatedBy isNaming isPlain, flatMap_map, Mark.only_map]
  apply flatMap_congr
  intro member _
  rw [named_cons, named_cons, Mark.only_plain isNaming isPlain, named_nil, append_nil, append_nil]

@[simp] theorem Trigger.textOf_marked (trigger : Trigger) : textOf trigger.marked = trigger.text := by
  cases trigger with
  | inputs header | edges keyword events => simp [marked, text]

@[simp] theorem Trigger.named_marked (isNaming : mark.isNaming = true) (trigger : Trigger) :
    named mark trigger.marked = Mark.uses.only mark trigger.reads := by
  cases trigger with
  | inputs header => simp [marked, reads, isNaming]
  | edges keyword events =>
    simp [marked, reads, isNaming, Mark.only_map]

attribute [local simp] Item.marked Item.lines Item.declares Item.mentions Item.labels Item.uses

theorem Item.textOf_marked (unit : String) (depth : Nat) (item : Item) :
    (item.marked unit depth).map textOf = item.lines unit depth := by
  cases item with
  | enumType enum dimension => simp
  | enumNote enum => simp
  | parameter type dimension name value remarks =>
    by_cases empty : type.isEmpty <;> cases dimension <;>
      simp [empty]
  | object type dimension name init remarks =>
    cases init <;> simp
  | assign target value remarks => simp
  | always trigger label body =>
    have inBody : (bodyMarked unit (depth + 1) body).map textOf = bodyLines unit (depth + 1) body :=
      (body_marks (depth + 1) body).texts
    cases label <;> simp [inBody]
  | placeholder comment => exact (comment.marks (pad unit depth)).texts

def Item.named (item : Item) (mark : Mark) : List String :=
  Mark.declares.only mark item.declares ++ Mark.mentions.only mark item.mentions ++
    Mark.labels.only mark item.labels ++ Mark.uses.only mark item.uses

theorem Item.named_marked (isNaming : mark.isNaming = true) (unit : String) (depth : Nat) (item : Item) :
    Verilog.named mark (item.marked unit depth).flatten = item.named mark := by
  unfold Item.named
  cases item with
  | enumType enum dimension =>
    have members := enum.named_marked isNaming .declares (show Mark.code.isNaming = false from rfl)
    simp [isNaming, members]
  | enumNote enum =>
    have members := enum.named_marked isNaming .mentions (show Mark.comment.isNaming = false from rfl)
    simp [isNaming, members]
  | parameter type dimension name value remarks | assign target value remarks =>
    simp [isNaming]
  | object type dimension name init remarks =>
    cases init <;>
      simp [isNaming]
  | always trigger label body =>
    have inBody : Verilog.named mark (bodyMarked unit (depth + 1) body).flatten = Mark.uses.only mark (bodyUses body) :=
      (body_marks (depth + 1) body).names mark isNaming
    have inLabel : Verilog.named mark (match label with
        | some label => [code " : ", ⟨.labels, label⟩]
        | none => []) = Mark.labels.only mark label.toList := by cases label <;> simp [isNaming]
    simp only [marked, declares, mentions, labels, uses, named_code isNaming, trigger.named_marked isNaming, inBody,
      inLabel, Mark.only_append, flatten_append, flatten_cons, cons_append, Verilog.named_append]
    cases mark <;> simp [Mark.only]
  | placeholder comment =>
    simpa using (comment.marks (pad unit depth)).names mark isNaming

/-! ### Modules -/

def Port.marked (port : Port) : List Fragment :=
  [code s!"{port.direction} {port.type}{dimensionText port.dimension} ", ⟨.declares, port.name⟩]

namespace Module

def portMarked (unit : String) : List Port → List (List Fragment)
  | [] => []
  | [port] => [code unit :: port.marked]
  | port :: rest => (code unit :: port.marked ++ [code ","]) :: portMarked unit rest

def opening (unit : String) (module : Module) : List (List Fragment) :=
  [⟨.comment, s!"// {module.banner}"⟩] ::
    if module.ports.isEmpty then [[code s!"module {module.name};"]]
    else [code s!"module {module.name} ("] :: portMarked unit module.ports ++ [[code ");"]]

def ended (lines : List (List Fragment)) : List Fragment := lines.flatMap fun line => line ++ [code "\n"]

def marked (unit : String) (module : Module) : List (List Fragment) :=
  module.opening unit ++ module.groups.flatMap (fun group => [] :: group.flatMap (Item.marked unit 1)) ++
    [[], [code "endmodule"]]

def fragments (module : Module) (unit : String) : List Fragment := ended (module.marked unit)

theorem textOf_portMarked (unit : String) (ports : List Port) :
    (portMarked unit ports).map textOf = portLines unit ports := by
  induction ports with
  | nil => rfl
  | cons port rest ih =>
    have text : textOf port.marked = port.text := by simp [Port.marked, Port.text]
    cases rest with
    | nil => simp [portMarked, portLines, text]
    | cons second others =>
      have lines : portLines unit (port :: second :: others) =
          (unit ++ port.text ++ ",") :: portLines unit (second :: others) := rfl
      have pieces : portMarked unit (port :: second :: others) =
          (code unit :: port.marked ++ [code ","]) :: portMarked unit (second :: others) := rfl
      rw [lines, pieces, map_cons, ih]
      simp [text]

theorem textOf_ended {lines : List (List Fragment)} (some : lines ≠ []) :
    textOf (ended lines) = "\n".intercalate (lines.map textOf) ++ "\n" := by
  induction lines with
  | nil => exact absurd rfl some
  | cons first rest ih =>
    cases rest with
    | nil => simp [ended]
    | cons second others =>
      rw [ended, flatMap_cons, ← ended, textOf_append, ih (cons_ne_nil second others), map_cons, map_cons,
        map_cons, String.intercalate_cons_cons]
      simp

theorem textOf_marked (module : Module) (unit : String) : (module.marked unit).map textOf = module.lines unit := by
  have groups : (module.groups.flatMap fun group => [] :: group.flatMap (Item.marked unit 1)).map textOf =
      module.groups.flatMap fun group => "" :: group.flatMap (Item.lines unit 1) := by
    rw [map_flatMap]
    apply flatMap_congr
    intro group _
    rw [map_cons, map_flatMap]
    simp only [Item.textOf_marked, textOf_nil]
  rw [marked, lines, map_append, map_append, groups, opening]
  by_cases empty : module.ports.isEmpty
  · simp [empty]
  · simp [empty, textOf_portMarked]

theorem textOf_fragments (module : Module) (unit : String) : textOf (module.fragments unit) = module.text unit := by
  rw [fragments, textOf_ended, textOf_marked, text]
  simp [marked]

theorem fragments_eq (module : Module) (unit : String) :
    module.fragments unit = ended (module.opening unit) ++
      module.groups.flatMap (fun group => code "\n" :: group.flatMap fun item => ended (item.marked unit 1)) ++
      [code "\n", code "endmodule", code "\n"] := by simp [fragments, marked, ended, flatMap_append, flatMap_assoc]

theorem named_ended (isNaming : mark.isNaming = true) (lines : List (List Fragment)) :
    named mark (ended lines) = named mark lines.flatten := by
  induction lines with
  | nil => rfl
  | cons first rest ih =>
    rw [ended, flatMap_cons, ← ended, flatten_cons, named_append, named_append, named_append, ih,
      named_code isNaming, named_nil, append_nil]

theorem named_opening (isNaming : mark.isNaming = true) (unit : String) (module : Module) :
    named mark (ended (module.opening unit)) = Mark.declares.only mark (module.ports.map Port.name) := by
  have ports (list : List Port) :
      named mark (portMarked unit list).flatten = Mark.declares.only mark (list.map Port.name) := by
    induction list with
    | nil => exact (Mark.only_nil ..).symm
    | cons port rest ih =>
      have name : named mark port.marked = Mark.declares.only mark [port.name] := by
        simp [Port.marked, isNaming]
      cases rest with
      | nil => simp [portMarked, isNaming, name]
      | cons second others =>
        have pieces : portMarked unit (port :: second :: others) =
            (code unit :: port.marked ++ [code ","]) :: portMarked unit (second :: others) := rfl
        have apart := Mark.declares.only_append mark [port.name] ((second :: others).map Port.name)
        rw [pieces, flatten_cons, named_append, ih, cons_append, named_code isNaming, named_append, name,
          named_code isNaming, named_nil, append_nil, ← apart]
        rfl
  rw [named_ended isNaming, opening]
  by_cases empty : module.ports.isEmpty
  · simp [isEmpty_iff.mp empty, isNaming]
  · simp [empty, isNaming, ports]

theorem named_fragments (isNaming : mark.isNaming = true) (module : Module) (unit : String) :
    named mark (module.fragments unit) = Mark.declares.only mark (module.ports.map Port.name) ++
      module.groups.flatten.flatMap fun item => item.named mark := by
  have items (list : List Item) : named mark (list.flatMap fun item => ended (item.marked unit 1)) =
      list.flatMap fun item => item.named mark := by
    induction list with
    | nil => rfl
    | cons item rest ih =>
      rw [flatMap_cons, named_append, ih, named_ended isNaming, item.named_marked isNaming, flatMap_cons]
  have groups (list : List (List Item)) :
      named mark (list.flatMap fun group => code "\n" :: group.flatMap fun item => ended (item.marked unit 1)) =
        list.flatten.flatMap fun item => item.named mark := by
    induction list with
    | nil => rfl
    | cons group rest ih =>
      rw [flatMap_cons, named_append, ih, named_code isNaming, items, flatten_cons, flatMap_append]
  rw [fragments_eq, named_append, named_append, named_opening isNaming, groups]
  simp [isNaming]

end Module

end RtlBridge.Verilog
