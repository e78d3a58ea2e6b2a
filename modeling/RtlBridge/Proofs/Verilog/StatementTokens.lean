import RtlBridge.Proofs.Verilog.Scanning
import RtlBridge.Verilog.Module

/-! The tokens of written statements. The lines of a statement hold its tokens, in order and outside of
comments, at every depth and for every indent of blanks; a comment holds none. -/

namespace RtlBridge.Verilog

open List

/-! ### Tokens -/

def Expr.tokens (expr : Expr) : List Token := Verilog.tokens expr.text.toList

def labelText (choices : List Expr) : String := ", ".intercalate (choices.map Expr.text)

def labelTokens (choices : List Expr) : List Token := tokens (labelText choices).toList

def blockTokens (inner : List Token) : List Token := .word "begin" :: (inner ++ [.word "end"])

mutual

def Stmt.tokens : Stmt → List Token
  | .assign target blocking value _ =>
    target.tokens ++ ((if blocking then [] else [.mark '<']) ++ .mark '=' :: (value.tokens ++ [.mark ';']))
  | .conditional branches otherwise => branchTokens [.word "if"] branches ++ elseTokens otherwise
  | .selection unique selector arms default =>
    (if unique then [.word "unique"] else []) ++ .word "case" :: .mark '(' :: (selector.tokens ++
      .mark ')' :: (armTokens arms ++ (defaultTokens default ++ [.word "endcase"])))
  | .placeholder _ => []

def bodyTokens : List Stmt → List Token
  | [] => []
  | first :: rest => first.tokens ++ bodyTokens rest

def branchTokens (opening : List Token) : List (Expr × List Stmt) → List Token
  | [] => []
  | (condition, body) :: rest =>
    opening ++ .mark '(' :: (condition.tokens ++ .mark ')' :: (blockTokens (bodyTokens body) ++
      branchTokens [.word "else", .word "if"] rest))

def elseTokens : Option (List Stmt) → List Token
  | none => []
  | some body => .word "else" :: blockTokens (bodyTokens body)

def armTokens : List (List Expr × List Stmt) → List Token
  | [] => []
  | (choices, body) :: rest => labelTokens choices ++ .mark ':' :: (blockTokens (bodyTokens body) ++ armTokens rest)

def defaultTokens : Option (List Stmt) → List Token
  | none => []
  | some body => .word "default" :: .mark ':' :: blockTokens (bodyTokens body)

end

/-! ### Tidy statements -/

def Expr.IsPlace : Expr → Prop
  | .name text => IsPlainName text
  | .index (.name text) subscript => IsPlainName text ∧ subscript.IsClean false
  | .slice (.name text) left right => IsPlainName text ∧ left.IsClean false ∧ right.IsClean false
  | _ => False

theorem Expr.IsPlace.isClean {target : Expr} (isPlace : target.IsPlace) : target.IsClean false := by
  match target, isPlace with
  | .name _, isName => exact isName
  | .index (.name _) _, isPart => exact isPart
  | .slice (.name _) _ _, isPart => exact isPart

/-- Comments that end with their lines. -/
structure Placeholder.IsTidy (comment : Placeholder) : Prop where
  construct : '\n' ∉ comment.construct.toList
  text : ∀ line ∈ comment.text, '\n' ∉ line.toList

/-- Statements of clean expressions, all of whose comments end with their lines. -/
inductive Stmt.IsTidy : Stmt → Prop
  | assign {target value : Expr} {blocking : Bool} {remarks : List Remark} (isPlace : target.IsPlace)
      (isClean : value.IsClean false) (oneLine : ∀ remark ∈ remarks, '\n' ∉ remark.text.toList) :
      IsTidy (.assign target blocking value remarks)
  | conditional {branches : List (Expr × List Stmt)} {otherwise : Option (List Stmt)} (present : branches ≠ [])
      (conditions : ∀ branch ∈ branches, branch.1.IsClean false)
      (bodies : ∀ branch ∈ branches, ∀ inner ∈ branch.2, IsTidy inner)
      (last : ∀ body ∈ otherwise, ∀ inner ∈ body, IsTidy inner) : IsTidy (.conditional branches otherwise)
  | selection {unique : Bool} {selector : Expr} {arms : List (List Expr × List Stmt)}
      {default : Option (List Stmt)} (isClean : selector.IsClean false)
      (choices : ∀ arm ∈ arms, ∀ choice ∈ arm.1, choice.IsClean false)
      (bodies : ∀ arm ∈ arms, ∀ inner ∈ arm.2, IsTidy inner)
      (last : ∀ body ∈ default, ∀ inner ∈ body, IsTidy inner) : IsTidy (.selection unique selector arms default)
  | placeholder {comment : Placeholder} (isTidy : comment.IsTidy) : IsTidy (.placeholder comment)

/-! ### Scanning lines -/

/-- Lines that hold the given tokens outside of comments. -/
structure Scans (lines : List String) (list : List Token) : Prop where
  tokens_eq : scanLines lines = list
  oneLine : ∀ line ∈ lines, '\n' ∉ line.toList

namespace Scans

theorem nil : Scans [] [] := ⟨rfl, nofun⟩

theorem append (left : Scans first list) (right : Scans second others) : Scans (first ++ second) (list ++ others) := by
  refine ⟨?_, forall_mem_append.mpr ⟨left.oneLine, right.oneLine⟩⟩
  rw [scanLines, flatMap_append]
  exact congrArg₂ (· ++ ·) left.tokens_eq right.tokens_eq

theorem cons {line : String} {lines : List String} {list others : List Token} (left : Scans [line] list)
    (right : Scans lines others) : Scans (line :: lines) (list ++ others) := left.append right

theorem scan_text (scans : Scans lines list) : scan ("\n".intercalate lines ++ "\n").toList = list :=
  (scan_intercalate scans.oneLine).trans scans.tokens_eq

end Scans

/-- Text of which nothing but blanks is left without comments. -/
structure IsIgnored (text : List Char) : Prop where
  blank : ∀ c ∈ strip false text, c = ' '
  oneLine : '\n' ∉ text

theorem strip_comment (oneLine : '\n' ∉ text) : strip true text = [] := by
  induction text with
  | nil => rfl
  | cons c rest ih =>
    rw [mem_cons, not_or] at oneLine
    rw [strip, if_pos rfl, if_neg fun same => oneLine.1 same.symm]
    exact ih oneLine.2

theorem isIgnored_comment (oneLine : '\n' ∉ text) : IsIgnored ('/' :: '/' :: text) := by
  refine ⟨?_, by simpa using oneLine⟩
  rw [strip, if_neg Bool.false_ne_true, if_pos ⟨rfl, rfl⟩, strip_comment (by simpa using oneLine)]
  exact forall_mem_nil _

theorem tokens_append_blanks (areBlanks : ∀ c ∈ blanks, c = ' ') (text : List Char) :
    tokens (text ++ blanks) = tokens text := by
  cases blanks with
  | nil => rw [append_nil]
  | cons c rest =>
    obtain ⟨here, later⟩ := forall_mem_cons.mp areBlanks
    rw [here, tokens_append_mark rfl]
    have none := tokens_blanks later []
    rw [append_nil] at none
    rw [none]
    exact append_nil _

theorem scans_line (spelled : line.toList = code ++ comment) (spells : Spells code list) (ignored : IsIgnored comment)
    : Scans [line] list := by
  constructor
  · rw [scanLines, flatMap_singleton, scan, spelled, spells.uncommented, tokens_append_blanks ignored.blank,
      spells.tokens_eq]
  · intro other member
    rw [mem_singleton.mp member, spelled, mem_append, not_or]
    exact ⟨spells.oneLine, ignored.oneLine⟩

theorem not_mem_intercalate {separator : List Char} (notSeparator : c ∉ separator) (each : ∀ text ∈ texts, c ∉ text)
    : c ∉ separator.intercalate texts := by
  refine intercalate_of_each not_mem_nil (fun first second here later => ?_) each
  rw [mem_append, mem_append, not_or, not_or]
  exact ⟨⟨here, notSeparator⟩, later⟩

theorem isIgnored_trailing (oneLine : ∀ remark ∈ remarks, '\n' ∉ remark.text.toList) :
    IsIgnored (trailing remarks).toList := by
  rw [trailing]
  split
  · exact ⟨nofun, nofun⟩
  · have listed : '\n' ∉ ("; ".intercalate (remarks.map Remark.text)).toList := by
      rw [String.toList_intercalate]
      apply not_mem_intercalate (by decide)
      intro text member
      obtain ⟨_, isRemark, rfl⟩ := mem_map.mp member
      obtain ⟨remark, inRemarks, rfl⟩ := mem_map.mp isRemark
      exact oneLine remark inRemarks
    have comment : '\n' ∉ ' ' :: ("; ".intercalate (remarks.map Remark.text)).toList :=
      not_mem_cons_of_ne_of_not_mem (by decide) listed
    have ignored := isIgnored_comment comment
    have blanks : Uncommented [' ', ' '] := .of_not_mem (by decide)
    rw [String.toList_append]
    constructor
    · change ∀ c ∈ strip false ([' ', ' '] ++ '/' :: '/' :: ' ' :: _), c = ' '
      rw [blanks, forall_mem_append]
      exact ⟨by simp, ignored.blank⟩
    · change '\n' ∉ [' ', ' '] ++ '/' :: '/' :: ' ' :: _
      rw [mem_append, not_or]
      exact ⟨by decide, ignored.oneLine⟩

/-! ### Lines of statements -/

def IsBlankText (text : String) : Prop := ∀ c ∈ text.toList, c = ' '

theorem IsBlankText.pad {unit : String} (blank : IsBlankText unit) (depth : Nat) : IsBlankText (pad unit depth) := by
  intro c member
  rw [Verilog.pad, String.toList_join, mem_flatMap] at member
  obtain ⟨text, isUnit, inText⟩ := member
  rw [eq_of_mem_replicate isUnit] at inText
  exact blank c inText

/-- Blanks before a text do not change its tokens. -/
theorem IsBlankText.spells {indent : String} (blank : IsBlankText indent) (spells : Spells text list) :
    Spells (indent.toList ++ text) list := by
  have clear : Clear indent.toList := by
    apply Clear.of_not_mem
    · exact fun slash => absurd (blank _ slash) (by decide)
    · exact fun lineBreak => absurd (blank _ lineBreak) (by decide)
  exact ⟨clear.append spells.toClear, (tokens_blanks blank text).trans spells.tokens_eq⟩

section Lines

variable {indent : String} (blank : IsBlankText indent)

include blank

theorem scans_code_remarks (spells : Spells text.toList list) (oneLine : ∀ remark ∈ remarks, '\n' ∉ remark.text.toList) :
    Scans [indent ++ text ++ trailing remarks] list := by
  have spelled : (indent ++ text ++ trailing remarks).toList =
      indent.toList ++ text.toList ++ (trailing remarks).toList := by simp
  exact scans_line spelled (blank.spells spells) (isIgnored_trailing oneLine)

theorem scans_code (spells : Spells text.toList list) : Scans [indent ++ text] list := by
  have scans := scans_code_remarks blank spells (forall_mem_nil _)
  rwa [show trailing [] = "" from rfl, String.append_empty] at scans

theorem scans_comments {lines : List String}
    (comments : ∀ line ∈ lines, ∃ text, line.toList = '/' :: '/' :: text ∧ '\n' ∉ text) :
    Scans (lines.map fun line => indent ++ line) [] := by
  induction lines with
  | nil => exact .nil
  | cons first rest ih =>
    obtain ⟨⟨text, spelled, oneLine⟩, later⟩ := forall_mem_cons.mp comments
    have indented : Spells indent.toList [] := append_nil indent.toList ▸ blank.spells .nil
    have here : Scans [indent ++ first] [] :=
      scans_line String.toList_append indented (spelled ▸ isIgnored_comment oneLine)
    exact here.cons (ih later)

theorem scans_placeholder {comment : Placeholder} (tidy : comment.IsTidy) :
    Scans (comment.lines.map fun line => indent ++ line) [] := by
  apply scans_comments blank
  rw [Placeholder.lines, forall_mem_cons, forall_mem_map]
  constructor
  · refine ⟨" VHDL2VER-UNSUPPORTED: ".toList ++ (comment.construct.toList ++ (" (line ".toList ++
      ((toString comment.line).toList ++ [')']))), by simp [toString], ?_⟩
    have number : '\n' ∉ (toString comment.line).toList := (isNumber_toString comment.line).quiet.oneLine
    simp only [mem_append, not_or]
    exact ⟨by decide, tidy.construct, by decide, number, by decide⟩
  · intro line member
    refine ⟨' ' :: line.toList, by simp [toString], ?_⟩
    exact not_mem_cons_of_ne_of_not_mem (by decide) (tidy.text line member)

end Lines

/-- Text in parentheses behind a word. -/
theorem spells_header {word : String} {condition : Expr} (first : Spells word.toList list)
    (isClean : condition.IsClean false) (last : Spells rest others) :
    Spells (word.toList ++ ' ' :: '(' :: (condition.text.toList ++ ')' :: rest))
      (list ++ .mark '(' :: (condition.tokens ++ .mark ')' :: others)) :=
  first.mark (.cons ((Expr.quiet_text isClean).spells.mark last))

def caseWord (unique : Bool) : String := if unique then "unique case" else "case"

def assignmentSign (blocking : Bool) : String := if blocking then "=" else "<="

theorem spells_assignment {target value : Expr} (isPlace : target.IsPlace) (isClean : value.IsClean false)
    (blocking : Bool) : Spells (s!"{target.text} {assignmentSign blocking} {value.text};").toList
      (target.tokens ++ ((if blocking then [] else [.mark '<']) ++ .mark '=' :: (value.tokens ++ [.mark ';']))) := by
  have sign : Spells (assignmentSign blocking).toList ((if blocking then [] else [.mark '<']) ++ [.mark '=']) := by
    cases blocking <;> exact .fixed
  have spells := (Expr.quiet_text isPlace.isClean).spells.mark (c := ' ')
    (sign.mark (c := ' ') ((Expr.quiet_text isClean).spells.mark (c := ';') .nil))
  simpa [toString, markOf, Expr.tokens] using spells

theorem inert_label (areClean : ∀ choice ∈ choices, choice.IsClean false) : Inert ':' 0 (labelText choices).toList := by
  rw [labelText, String.toList_intercalate]
  apply Expr.inert_separated (by decide)
  intro text member
  obtain ⟨_, isText, rfl⟩ := mem_map.mp member
  obtain ⟨choice, inChoices, rfl⟩ := mem_map.mp isText
  exact choice.inert_text (areClean choice inChoices) (by decide) nofun

section Statements

variable {unit : String}

def Stmt.IsScanned (unit : String) (stmt : Stmt) : Prop := ∀ depth, Scans (stmt.lines unit depth) stmt.tokens

theorem scans_body (each : ∀ stmt ∈ list, stmt.IsScanned unit) (depth : Nat)
    : Scans (bodyLines unit depth list) (bodyTokens list) := by
  induction list with
  | nil => exact .nil
  | cons first rest ih =>
    obtain ⟨here, later⟩ := forall_mem_cons.mp each
    rw [bodyLines, bodyTokens]
    exact (here depth).append (ih later)

variable (blank : IsBlankText unit)

include blank

theorem scans_words (depth : Nat) (spells : Spells text.toList list := by exact .fixed) :
    Scans [pad unit depth ++ text] list := scans_code (blank.pad depth) spells

theorem scans_end (depth : Nat) : Scans [pad unit depth ++ "end"] [.word "end"] := scans_words blank depth

theorem scans_header (depth : Nat) {text : String} {condition : Expr} (isClean : condition.IsClean false)
    (words : Spells text.toList list) :
    Scans [pad unit depth ++ s!"{text} ({condition.text}) begin"]
      (list ++ .mark '(' :: (condition.tokens ++ [.mark ')', .word "begin"])) := by
  have last : Spells " begin".toList [.word "begin"] := .fixed
  refine scans_words blank depth ?_
  simpa [toString] using spells_header words isClean last

theorem scans_label (depth : Nat) (areClean : ∀ choice ∈ choices, choice.IsClean false) :
    Scans [pad unit depth ++ labelText choices ++ ": begin"] (labelTokens choices ++ [.mark ':', .word "begin"]) := by
  have last : Spells " begin".toList [.word "begin"] := .fixed
  rw [String.append_assoc]
  refine scans_words blank depth ?_
  rw [String.toList_append]
  exact (inert_label areClean).spells.mark last

theorem scans_selector (depth : Nat) (unique : Bool) {selector : Expr} (isClean : selector.IsClean false) :
    Scans [pad unit depth ++ s!"{caseWord unique} ({selector.text})"]
      ((if unique then [.word "unique"] else []) ++ .word "case" :: .mark '(' :: (selector.tokens ++ [.mark ')'])) := by
  have words : Spells (caseWord unique).toList ((if unique then [.word "unique"] else []) ++ [.word "case"]) := by
    cases unique <;> exact .fixed
  refine scans_words blank depth ?_
  simpa [toString] using spells_header words isClean .nil

theorem scans_chain (depth : Nat) (conditions : ∀ branch ∈ branches, branch.1.IsClean false)
    (bodies : ∀ branch ∈ branches, ∀ stmt ∈ branch.2, stmt.IsScanned unit)
    (last : ∀ body ∈ otherwise, ∀ stmt ∈ body, stmt.IsScanned unit) :
    Scans (branchLines unit depth "end else if" branches ++ elseLines unit depth otherwise ++ [pad unit depth ++ "end"])
      (.word "end" :: (branchTokens [.word "else", .word "if"] branches ++ elseTokens otherwise)) := by
  induction branches with
  | nil =>
    cases otherwise with
    | none => exact scans_end blank depth
    | some body =>
      have opening : Scans [pad unit depth ++ "end else begin"] [.word "end", .word "else", .word "begin"] :=
        scans_words blank depth
      exact opening.cons ((scans_body (last body rfl) (depth + 1)).append (scans_end blank depth))
  | cons first rest ih =>
    obtain ⟨condition, body⟩ := first
    obtain ⟨isClean, conditions⟩ := forall_mem_cons.mp conditions
    obtain ⟨inBody, bodies⟩ := forall_mem_cons.mp bodies
    have words : Spells "end else if".toList [.word "end", .word "else", .word "if"] := .fixed
    have header := scans_header blank depth isClean words
    have chain := header.cons ((scans_body inBody (depth + 1)).append (ih conditions bodies))
    simp only [cons_append, nil_append, append_assoc] at chain
    simp only [branchLines, branchTokens, blockTokens, cons_append, nil_append, append_assoc]
    exact chain

theorem scans_arms (choices : ∀ arm ∈ arms, ∀ choice ∈ arm.1, choice.IsClean false)
    (bodies : ∀ arm ∈ arms, ∀ stmt ∈ arm.2, stmt.IsScanned unit) (depth : Nat) :
    Scans (armLines unit depth arms) (armTokens arms) := by
  induction arms with
  | nil => exact .nil
  | cons first rest ih =>
    obtain ⟨list, body⟩ := first
    obtain ⟨areClean, choices⟩ := forall_mem_cons.mp choices
    obtain ⟨inBody, bodies⟩ := forall_mem_cons.mp bodies
    have header : Scans [pad unit depth ++ labelText list ++ ": begin"]
        (labelTokens list ++ [.mark ':', .word "begin"]) := scans_label blank depth areClean
    have lines := header.cons ((scans_body inBody (depth + 1)).append ((scans_end blank depth).cons (ih choices bodies)))
    simp only [cons_append, nil_append, append_assoc] at lines
    simp only [armLines, armTokens, blockTokens, cons_append, nil_append, append_assoc]
    exact lines

theorem scans_default {default : Option (List Stmt)}
    (last : ∀ body ∈ default, ∀ stmt ∈ body, stmt.IsScanned unit) (depth : Nat) :
    Scans (defaultLines unit depth default) (defaultTokens default) := by
  cases default with
  | none => exact .nil
  | some body =>
    have opening : Scans [pad unit depth ++ "default: begin"] [.word "default", .mark ':', .word "begin"] :=
      scans_words blank depth
    exact opening.cons ((scans_body (last body rfl) (depth + 1)).append (scans_end blank depth))

theorem Stmt.IsTidy.scans {stmt : Stmt} (tidy : stmt.IsTidy) (depth : Nat) :
    Scans (stmt.lines unit depth) stmt.tokens := by
  induction tidy generalizing depth with
  | assign isPlace isClean oneLine =>
    rename_i target value blocking remarks
    exact scans_code_remarks (blank.pad depth) (spells_assignment isPlace isClean blocking) oneLine
  | conditional present conditions bodies last inBodies inLast =>
    rename_i branches otherwise
    obtain ⟨⟨condition, body⟩, rest, rfl⟩ := exists_cons_of_ne_nil present
    obtain ⟨isClean, conditions⟩ := forall_mem_cons.mp conditions
    obtain ⟨inBody, inBodies⟩ := forall_mem_cons.mp inBodies
    have words : Spells "if".toList [.word "if"] := .fixed
    have header := scans_header blank depth isClean words
    have later := scans_chain blank depth conditions inBodies inLast
    have chain := header.cons ((scans_body inBody (depth + 1)).append later)
    simp only [cons_append, nil_append, append_assoc] at chain
    simp only [Stmt.lines, Stmt.tokens, branchLines, branchTokens, blockTokens, cons_append, nil_append, append_assoc]
    exact chain
  | selection isClean choices bodies last inBodies inLast =>
    rename_i unique selector arms default
    have header := scans_selector blank depth unique isClean
    have closing : Scans [pad unit depth ++ "endcase"] [.word "endcase"] :=
      scans_words blank depth
    have lines := header.cons ((scans_arms blank choices inBodies (depth + 1)).append
      ((scans_default blank inLast (depth + 1)).append closing))
    simp only [cons_append, nil_append, append_assoc] at lines
    simp only [Stmt.lines, Stmt.tokens, cons_append, append_assoc]
    exact lines
  | placeholder isTidy => exact scans_placeholder (blank.pad depth) isTidy

end Statements

end RtlBridge.Verilog
