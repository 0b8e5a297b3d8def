import GridKernel.Proofs.Target.Identifiers
import GridKernel.Proofs.Target.Kinds
import Mathlib.Data.List.Chain

/-!
# Words in target programs

`Program.tokens` is the program's text cut into tokens, each word marked as one that the kernel gives
or as one that the printer writes of its own. The tokens spell the text (`Program.lines_eq`), and
between any two of them that could run into each other stands a mark (`Program.spaced`).
-/

namespace GridKernel.Target

open List Expr

/-! ## Tokens -/

namespace Token

@[simp] theorem text_own (word) : (own word).text = word := rfl

@[simp] theorem text_user (name) : (user name).text = name := rfl

@[simp] theorem text_numeral (text) : (numeral text).text = text := rfl

@[simp] theorem text_mark (text) : (mark text).text = text := rfl

def word? : Token → Option String
  | own word => some word
  | user name => some name
  | _ => none

def isMark : Token → Bool
  | mark _ => true
  | _ => false

@[simp] theorem spell_nil : spell [] = "" := rfl

@[simp] theorem spell_cons (t ts) : spell (t :: ts) = t.text ++ spell ts := by
  simp [spell]

theorem spell_single (t) : spell [t] = t.text := by simp

@[simp] theorem spell_append (ts us) : spell (ts ++ us) = spell ts ++ spell us := by
  simp [spell]

/-- Of two tokens next to each other, one is a mark. -/
def Spaced (ts : List Token) : Prop := ts.IsChain fun a b => a.isMark = true ∨ b.isMark = true

@[simp] theorem spaced_nil : Spaced [] := .nil

@[simp] theorem spaced_single (t) : Spaced [t] := .singleton t

@[simp] theorem spaced_mark (text ts) : Spaced (mark text :: ts) ↔ Spaced ts := by
  rw [Spaced, isChain_cons]
  exact and_iff_right fun _ _ => .inl rfl

@[simp] theorem spaced_cons_mark (t text ts) : Spaced (t :: mark text :: ts) ↔ Spaced ts := by
  rw [Spaced, isChain_cons_cons, and_iff_right (.inr rfl)]
  exact spaced_mark text ts

@[simp] theorem spaced_append_mark (ts us text) :
    Spaced (ts ++ mark text :: us) ↔ Spaced ts ∧ Spaced us := by
  rw [Spaced, isChain_append]
  have apart : ∀ x ∈ ts.getLast?, ∀ y ∈ (mark text :: us).head?, x.isMark = true ∨ y.isMark = true := by
    intro x _ y last
    cases last
    exact .inr rfl
  have later : (mark text :: us).IsChain (fun a b => a.isMark = true ∨ b.isMark = true) ↔ Spaced us :=
    spaced_mark text us
  rw [later, and_iff_left apart]
  rfl

/-- The token is what its constructor says. -/
def Proper : Token → Prop
  | own word => Name.isIdentifier word = true
  | user name => Name.isIdentifier name = true
  | numeral text => identifiers text.toList = []
  | mark text => text ≠ "" ∧ ∀ c ∈ text.toList, Name.isTail c = false

theorem Proper.identifiers_eq {t : Token} (h : t.Proper) :
    identifiers t.text.toList = t.word?.toList := by
  cases t with
  | own word | user name => exact identifiers_of_isIdentifier h
  | numeral text => exact h
  | mark text =>
    have none := identifiers_marks_append h.2 []
    rwa [append_nil] at none

/-- The identifiers in what tokens spell are their words. -/
theorem identifiers_spell (spaced : Spaced ts) (proper : ∀ t ∈ ts, t.Proper) :
    identifiers (spell ts).toList = ts.filterMap word? := by
  induction ts with
  | nil => rfl
  | cons t rest ih =>
    obtain ⟨first, others⟩ := forall_mem_cons.mp proper
    obtain ⟨apart, later⟩ := isChain_cons.mp spaced
    have words : (t :: rest).filterMap word? = t.word?.toList ++ rest.filterMap word? := by
      cases t <;> rfl
    rw [spell_cons, String.toList_append, words, ← ih later others]
    cases t with
    | mark text => exact identifiers_marks_append first.2 _
    | own | user | numeral =>
      rw [← first.identifiers_eq]
      refine identifiers_append ?_ _
      -- What follows a word begins with a mark.
      cases rest with
      | nil => simp
      | cons u more =>
        cases u with
        | mark text =>
          obtain ⟨filled, marks⟩ := others _ mem_cons_self
          intro c starts
          rw [spell_cons, text_mark, String.toList_append] at starts
          cases letters : text.toList with
          | nil => exact absurd (String.toList_eq_nil_iff.mp letters) filled
          | cons a as =>
            rw [letters] at starts
            cases starts
            exact marks c (letters ▸ mem_cons_self)
        | _ => exact absurd (apart _ rfl) (by simp [isMark])

/-- A line that is indented. -/
def indented (depth : Nat) (ts : List Token) : List Token := List.replicate depth (mark "   ") ++ ts

@[simp] theorem spell_indented (depth ts) :
    spell (indented depth ts) = indent depth (spell ts) := by
  induction depth with
  | zero => simp [indented, indent]
  | succ n ih =>
    have first : indented (n + 1) ts = mark "   " :: indented n ts := rfl
    rw [first, spell_cons, ih]
    apply String.toList_inj.mp
    simp [indent, Nat.mul_succ, replicate_succ]

@[simp] theorem spell_joined (ls) : spell (joined ls) = Text.join ", " (ls.map spell) := by
  induction ls with
  | nil => rfl
  | cons ts rest ih =>
    cases rest with
    | nil => rfl
    | cons us others => simp [joined, Text.join, ih, String.append_assoc]

theorem mem_joined (h : t ∈ joined ls) : t = mark ", " ∨ ∃ ts ∈ ls, t ∈ ts := by
  induction ls with
  | nil => cases h
  | cons ts rest ih =>
    cases rest with
    | nil => exact .inr ⟨ts, mem_cons_self, h⟩
    | cons us more =>
      rw [joined, mem_append, mem_cons] at h
      · rcases h with first | rfl | later
        · exact .inr ⟨ts, mem_cons_self, first⟩
        · exact .inl rfl
        · exact (ih later).imp_right fun ⟨l, inside, there⟩ => ⟨l, mem_cons_of_mem _ inside, there⟩
      · simp

end Token

/-! ## Expressions and statements -/

open Token (indented spell Spaced)

@[simp] theorem spell_type (t) : spell (typeTokens t) = t.clName := by
  cases t <;> decide

theorem Expr.allTokens_eq (stem es) : Expr.allTokens stem es = es.map (Expr.tokens stem) := by
  induction es with
  | nil => rfl
  | cons e rest ih => rw [Expr.allTokens, ih, map_cons]

def Body.tokens (stem : String) (depth : Nat) (b : Body) : List (List Token) :=
  (b.temps.zipIdx.map fun (t, n) =>
      indented depth (typeTokens t ++ [.mark " ", .own (tempName n), .mark ";"]))
    ++ (Stmt.allTokens stem b.stmts).map fun l => indented (depth + l.1) l.2

attribute [local simp] String.append_assoc

theorem Body.lines_eq (stem depth) (b : Body) :
    (b.tokens stem depth).map spell = b.lines stem depth := by
  simp [Body.tokens, Body.lines, Stmt.allLines, Function.comp_def]

variable {good : List Token → Prop}

/-- What holds of lines and of the lines around them. -/
theorem forall_nested {head : List Token} {inner foot : List Line} (first : good head)
    (inside : ∀ l ∈ inner, good l.2) (last : ∀ l ∈ foot, good l.2) :
    ∀ l ∈ nested head inner foot, good l.2 :=
  forall_mem_cons.mpr ⟨first, forall_mem_append.mpr ⟨forall_mem_map.mpr inside, last⟩⟩

/-! ## Programs -/

def Member.token : Member → Token
  | .scalar _ name | .array _ _ name | .slots _ _ name => .user name
  | .length owner => .own (lengthName owner)
  | .passId => .own "passid"

def Member.declTokens : Member → List Token
  | .scalar type name => typeTokens type ++ [.mark " ", .user name]
  | .array space type name =>
    .own space.clQualifier :: .mark " " :: (typeTokens type ++ [.mark " *", .user name])
  | .slots scope width name =>
    [.own "volatile", .mark " ", .own scope.clQualifier, .mark " ", .own width.name, .mark " *",
      .user name]
  | .length owner => [.own "int", .mark " ", .own (lengthName owner)]
  | .passId => [.own "int", .mark " ", .own "passid"]

def resultTokens : Option ScalarType → List Token
  | some t => typeTokens t
  | none => [.own "void"]

def Helper.signatureTokens (stem : String) (h : Helper) : List Token :=
  resultTokens h.ret ++ .mark " " :: .own (helperName stem h.method) :: .mark "("
    :: (Token.joined ([.own "This", .mark " *", .own "this"]
      :: h.params.map fun q => typeTokens q.type ++ [.mark " ", .user q.name]) ++ [.mark ")"])

def Helper.tokens (stem : String) (h : Helper) : List (List Token) :=
  (h.signatureTokens stem ++ [.mark "\x7b"]) :: (h.body.tokens stem 1 ++ [[.mark "\x7d"], []])

def paramTokens : List Member → List (List Token)
  | [] => []
  | [m] => [.mark "   " :: m.declTokens]
  | m :: rest => (.mark "   " :: (m.declTokens ++ [.mark ","])) :: paramTokens rest

/-- The lines before the state's type. -/
def Program.directives (p : Program) : List String :=
  if p.extensions.isEmpty then [] else p.extensions.map Extension.pragma ++ [""]

/-- The end of the state's type, and the function that reads the number of the pass. -/
def accessorTokens : List (List Token) :=
  [[.mark "\x7d", .own "This", .mark ";"],
    [.own "int", .mark " ", .own "get_pass_id", .mark "(", .own "This", .mark " *", .own "this",
      .mark ")\x7b"],
    [.mark "   ", .own "return", .mark " ", .own "this", .mark "->", .own "passid", .mark ";"],
    [.mark "\x7d"], []]

/-- The end of the kernel function's head, and the state. -/
def stateTokens : List (List Token) :=
  [[.mark ")\x7b"], [.mark "   ", .own "This", .mark " ", .own "thisStruct", .mark ";"],
    [.mark "   ", .own "This", .mark "* ", .own "this", .mark "=&", .own "thisStruct", .mark ";"]]

def endTokens : List (List Token) :=
  [[.mark "      ", .own "return", .mark ";"], [.mark "   \x7d"], [.mark "\x7d"]]

def Member.fieldTokens (m : Member) : List Token := .mark "   " :: (m.declTokens ++ [.mark ";"])

def Member.copyTokens (m : Member) : List Token :=
  [.mark "   ", .own "this", .mark "->", m.token, .mark " = ", m.token, .mark ";"]

def openingTokens : List Token :=
  [.own "typedef", .mark " ", .own "struct", .mark " ", .own "This_s", .mark "\x7b"]

def entryTokens (entry : String) : List Token :=
  [.own "__kernel", .mark " ", .own "void", .mark " ", .own entry, .mark "("]

/-- The tokens of the lines after the directives. -/
def Program.tokens (p : Program) : List (List Token) :=
  openingTokens :: p.members.map Member.fieldTokens ++ accessorTokens
    ++ (p.helpers.map fun h => h.signatureTokens p.stem ++ [.mark ";"])
    ++ (if p.helpers.isEmpty then [] else [[]]) ++ p.helpers.flatMap (Helper.tokens p.stem)
    ++ entryTokens p.entry :: paramTokens p.members ++ stateTokens ++ p.members.map Member.copyTokens
    ++ [.mark "   \x7b"] :: p.body.tokens p.stem 2 ++ endTokens

section

variable (stem : String)

@[simp] theorem Member.token_text (m : Member) : m.token.text = m.name := by
  cases m <;> rfl

@[simp] theorem Member.spell_decl (m : Member) : spell m.declTokens = m.decl := by
  apply String.toList_inj.mp
  cases m <;> simp [Member.declTokens, Member.decl]

@[simp] theorem spell_result (t) : spell (resultTokens t) = t.elim "void" ScalarType.clName := by
  cases t with
  | none => rfl
  | some t => exact spell_type t

@[simp] theorem Helper.spell_signature (h : Helper) :
    spell (h.signatureTokens stem) = h.signature stem := by
  have params : (h.params.map fun q => typeTokens q.type ++ [.mark " ", .user q.name]).map spell =
      h.params.map fun q => q.type.clName ++ " " ++ q.name := by
    simp
  have state : spell [.own "This", .mark " *", .own "this"] = "This *this" := by decide
  simp [Helper.signatureTokens, Helper.signature, -map_map, params, state]

theorem Helper.lines_eq (h : Helper) : (h.tokens stem).map spell = h.lines stem := by
  simp [Helper.tokens, Helper.lines, Body.lines_eq]

theorem spell_params (ms) : (paramTokens ms).map spell = paramLines ms := by
  induction ms with
  | nil => rfl
  | cons m rest ih =>
    cases rest with
    | nil => simp [paramTokens, paramLines]
    | cons m' others => simp [paramTokens, paramLines, ih]

/-- The tokens spell the program. -/
theorem Program.lines_eq (p : Program) : p.lines = p.directives ++ p.tokens.map spell := by
  have fields : (p.members.map Member.fieldTokens).map spell =
      p.members.map fun m => "   " ++ m.decl ++ ";" := by
    simp [Member.fieldTokens]
  have prototypes : (p.helpers.map fun h => h.signatureTokens p.stem ++ [.mark ";"]).map spell =
      p.helpers.map fun h => h.signature p.stem ++ ";" := by
    simp
  have gap : (if p.helpers.isEmpty then [] else [[]]).map spell =
      if p.helpers.isEmpty then [] else [""] := by
    split <;> rfl
  have helpers : (p.helpers.flatMap (Helper.tokens p.stem)).map spell =
      p.helpers.flatMap (Helper.lines p.stem) := by
    rw [map_flatMap]
    simp only [Helper.lines_eq]
  have head : spell (entryTokens p.entry) = "__kernel void " ++ p.entry ++ "(" := by
    apply String.toList_inj.mp
    simp [entryTokens]
  have copies : (p.members.map Member.copyTokens).map spell =
      p.members.map fun m => "   this->" ++ m.name ++ " = " ++ m.name ++ ";" := by
    rw [map_map]
    refine map_congr_left fun m _ => String.toList_inj.mp ?_
    simp [Member.copyTokens]
  have accessor : accessorTokens.map spell = ["\x7dThis;", "int get_pass_id(This *this)\x7b",
      "   return this->passid;", "\x7d", ""] := by decide
  have state : stateTokens.map spell =
      [")\x7b", "   This thisStruct;", "   This* this=&thisStruct;"] := by decide
  have ending : endTokens.map spell = ["      return;", "   \x7d", "\x7d"] := by decide
  have opening : spell openingTokens = "typedef struct This_s\x7b" := by decide
  simp only [Program.tokens, Program.lines, Program.directives, map_append, map_cons,
    fields, prototypes, gap, helpers, head, spell_params, copies, Body.lines_eq, accessor, state,
    ending, opening, Token.spell_single, Token.text_mark, append_assoc, cons_append]

/-- The lines that are the same in all programs, up to the name of the kernel function. -/
def frameTokens (entry : String) : List (List Token) :=
  openingTokens :: entryTokens entry :: [.mark "   \x7b"] :: [] ::
    (accessorTokens ++ stateTokens ++ endTokens)

/-- What holds of all kinds of lines holds of all lines. -/
theorem Program.forall_tokens {p : Program} (frame : ∀ ts ∈ frameTokens p.entry, good ts)
    (fields : ∀ m ∈ p.members, good m.fieldTokens) (copies : ∀ m ∈ p.members, good m.copyTokens)
    (params : ∀ ts ∈ paramTokens p.members, good ts)
    (prototypes : ∀ h ∈ p.helpers, good (h.signatureTokens p.stem ++ [.mark ";"]))
    (helpers : ∀ h ∈ p.helpers, ∀ ts ∈ h.tokens p.stem, good ts)
    (body : ∀ ts ∈ p.body.tokens p.stem 2, good ts) : ∀ ts ∈ p.tokens, good ts := by
  simp only [frameTokens, forall_mem_cons, forall_mem_append] at frame
  obtain ⟨opening, entry, inner, blank, ⟨accessor, state⟩, ending⟩ := frame
  have gap : ∀ ts ∈ (if p.helpers.isEmpty then [] else [[]]), good ts := by
    split
    · exact forall_mem_nil _
    · exact forall_mem_singleton.mpr blank
  have definitions : ∀ ts ∈ p.helpers.flatMap (Helper.tokens p.stem), good ts := by
    intro ts inside
    obtain ⟨h, member, own⟩ := mem_flatMap.mp inside
    exact helpers h member ts own
  simp only [Program.tokens, forall_mem_append, forall_mem_cons, forall_mem_map]
  exact ⟨⟨⟨⟨⟨⟨⟨⟨⟨⟨opening, fields⟩, accessor⟩, prototypes⟩, gap⟩, definitions⟩, entry, params⟩,
    state⟩, copies⟩, inner, body⟩, ending⟩

end

end GridKernel.Target
