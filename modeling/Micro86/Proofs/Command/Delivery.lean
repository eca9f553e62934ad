import Mathlib.Data.List.Basic
import Micro86.Command.Assemble
import Micro86.Proofs.FileTree
import Micro86.Proofs.InstructionSet.Bundled

/-!
What the assembler leaves behind it. All output is made before any of it goes anywhere, so a run
that fails shows nothing and leaves all files as they are; a run that does not fail leaves the
output that was asked for, in one place.
-/
namespace Micro86.Command.Assemble

/-- What a run leaves behind it: a reply, unless it broke off, and the files. -/
structure Aftermath where
  reply : Except Interruption Reply
  files : FileTree

/-- Does what is left to do. Apart from what stands in the tree, something else may be in the way of
a file; nothing is changed then. -/
def Conclusion.settle (tree : FileTree) (obstacle : Option WriteFault) : Conclusion → Aftermath
  | reply r => ⟨.ok r,tree⟩
  | abort i => ⟨.error i,tree⟩
  | write path text done =>
    match obstacle with
    | some fault => ⟨.ok (done (some fault)),tree⟩
    | none =>
      match tree.write path text.toUTF8.toList with
      | .error fault => ⟨.ok (done (some fault)),tree⟩
      | .ok after => ⟨.ok (done none),after⟩

/-- The file that is asked for; without one the output is shown. -/
def Settings.target? (settings : Settings) : Option String :=
  match settings.out with
  | .omitted => none
  | .given out => if out = "" then none else some out

/-- One part of the output: what it is rendered to, or nothing if it is not asked for. -/
def Asked (wanted : Bool) (rendered : Except Failure String) (text : String) : Prop :=
  if wanted then rendered = .ok text else text = ""

/-- The whole output, words first. -/
structure Made (s : Surroundings) (settings : Settings) (isa : InstructionSet)
    (tokens : List Token) (words code : String) : Prop where
  words : Asked settings.words (renderWords s isa tokens settings.banner settings.radix) words
  code : Asked settings.code (renderCode s isa tokens settings.banner) code

/-- The place for a text can be written, if a file is asked for. -/
def Accepts (tree : FileTree) (obstacle : Option WriteFault) (settings : Settings)
    (text : String) : Prop :=
  ∀ out, settings.target? = some out → (Path.parse out).hasNul = false ∧ obstacle = none ∧
    ∃ after, tree.write (Path.parse out) text.toUTF8.toList = .ok after

/-- All that is asked for can be made and put where it is asked for. -/
def Possible (s : Surroundings) (args : List String) (tree : FileTree)
    (obstacle : Option WriteFault) : Prop :=
  ∃ settings source isa text, parseArguments args = .ok (settings,source) ∧
    (loadInput s settings source).result = .ok (isa,text) ∧
    (Source.tokens Source.comment text = [] ∨ ∃ words code,
      Made s settings isa (Source.tokens Source.comment text) words code ∧
      Accepts tree obstacle settings (words ++ code))

/-- Nothing is shown and nothing is changed. -/
inductive Failed (tree : FileTree) : Aftermath → Prop
  | abort {i : Interruption} (silent : i.shown = "") : Failed tree ⟨.error i,tree⟩
  | reply {r : Reply} (exit : r.exit ≠ 0) (silent : r.stdout = "") : Failed tree ⟨.ok r,tree⟩

namespace Failed
variable {tree : FileTree} {left : Aftermath}

theorem files (h : Failed tree left) : left.files = tree := by
  cases h <;> rfl

theorem silent (h : Failed tree left) {r : Reply} (hr : left.reply = .ok r) :
    r.exit ≠ 0 ∧ r.stdout = "" := by
  cases h with
  | abort => cases hr
  | reply exit silent =>
    cases hr
    exact ⟨exit,silent⟩

theorem silent_of_abort (h : Failed tree left) {i : Interruption} (hi : left.reply = .error i) :
    i.shown = "" := by
  cases h with
  | abort silent =>
    cases hi
    exact silent
  | reply => cases hi

end Failed

/-- What is shown for some tokens, and the files after that. -/
inductive Delivered (s : Surroundings) (settings : Settings) (isa : InstructionSet)
    (tokens : List Token) (tree : FileTree) : String → FileTree → Prop
  | nothing (empty : tokens = []) : Delivered s settings isa tokens tree "" tree
  | shown {words code : String} (nonempty : tokens ≠ [])
    (made : Made s settings isa tokens words code) (target : settings.target? = none) :
    Delivered s settings isa tokens tree (words ++ code) tree
  | saved {words code out : String} {after : FileTree} (nonempty : tokens ≠ [])
    (made : Made s settings isa tokens words code) (target : settings.target? = some out)
    (saved : tree.Saved (Path.parse out) (words ++ code).toUTF8.toList after) :
    Delivered s settings isa tokens tree "" after

theorem Delivered.of_target {s : Surroundings} {settings : Settings} {isa : InstructionSet}
    {tokens : List Token} {tree after : FileTree} {shown out : String}
    (h : Delivered s settings isa tokens tree shown after) (htokens : tokens ≠ [])
    (htarget : settings.target? = some out) :
    ∃ words code, Made s settings isa tokens words code ∧ shown = "" ∧
      tree.Saved (Path.parse out) (words ++ code).toUTF8.toList after := by
  cases h with
  | nothing empty => exact absurd empty htokens
  | shown _ _ target => cases htarget.symm.trans target
  | saved _ made target saved =>
    cases htarget.symm.trans target
    exact ⟨_,_,made,rfl,saved⟩

/-! ### Making the output -/

theorem result_bind {ε α β : Type} (r : Reported ε α)
    (f : α → Reported ε β) : (r.bind f).result = r.result >>= fun a => (f a).result := by
  unfold Reported.bind
  cases r.result <;> rfl

theorem loadSet_none (s : Surroundings) : (loadSet s none).result = .ok InstructionSet.bundled := by
  simp only [loadSet,parseSet,InstructionSet.parse_bundledText]
  rfl

theorem asked_iff {wanted : Bool} {rendered : Except Failure String} {text : String} :
    (if wanted then rendered else .ok "") = .ok text ↔ Asked wanted rendered text := by
  cases wanted with
  | true => exact Iff.rfl
  | false => simp [Asked,eq_comm]

section
variable {s : Surroundings} {settings : Settings} {isa : InstructionSet} {tokens : List Token}

theorem output_eq_ok {text : String} :
    (output s settings isa tokens).result = .ok text ↔
      ∃ words code, Made s settings isa tokens words code ∧ text = words ++ code := by
  have hwords : (if settings.words then reportWords s isa tokens settings.banner settings.radix
      else ⟨[],.ok ""⟩).result = if settings.words then
        renderWords s isa tokens settings.banner settings.radix else .ok "" := by
    cases settings.words <;> rfl
  have hcode : (if settings.code then reportCode s isa tokens settings.banner
      else ⟨[],.ok ""⟩).result = if settings.code then
        renderCode s isa tokens settings.banner else .ok "" := by
    cases settings.code <;> rfl
  rw [output,result_bind,bind_eq_ok,hwords]
  simp only [result_bind,bind_eq_ok,hcode,asked_iff,Except.ok.injEq]
  constructor
  · rintro ⟨words,hw,code,hc,rfl⟩
    exact ⟨words,code,⟨hw,hc⟩,rfl⟩
  · rintro ⟨words,code,⟨hw,hc⟩,rfl⟩
    exact ⟨words,hw,code,hc,rfl⟩

/-! ### Delivering it -/

section
variable (level : Level) (records : List Record) (text : String)

theorem deliver_of_no_target (h : settings.target? = none) :
    deliver settings level records text =
      .reply { exit := 0, stdout := text, stderr := Record.render level records } := by
  unfold Settings.target? at h
  unfold deliver
  cases hout : settings.out with
  | omitted => rfl
  | given out =>
    rw [hout] at h
    obtain rfl : out = "" := by simpa using h
    rfl

theorem deliver_of_target {out : String} (h : settings.target? = some out) :
    deliver settings level records text =
      if (Path.parse out).hasNul then .abort { reason := .path .nul }
      else .write (Path.parse out) text (written settings out level records) := by
  unfold Settings.target? at h
  unfold deliver
  cases hout : settings.out with
  | omitted =>
    rw [hout] at h
    cases h
  | given other =>
    rw [hout] at h
    obtain ⟨hother,rfl⟩ : other ≠ "" ∧ other = out := by simpa using h
    simp

variable {tree : FileTree} {obstacle : Option WriteFault} {words code : String}

theorem settle_deliver_of_accepts (htokens : tokens ≠ [])
    (hmade : Made s settings isa tokens words code)
    (haccepts : Accepts tree obstacle settings (words ++ code)) :
    ∃ r after, (deliver settings level records (words ++ code)).settle tree obstacle =
        ⟨.ok r,after⟩ ∧ r.exit = 0 ∧ Delivered s settings isa tokens tree r.stdout after := by
  cases htarget : settings.target? with
  | none =>
    rw [deliver_of_no_target _ _ _ htarget]
    exact ⟨_,tree,rfl,rfl,.shown htokens hmade htarget⟩
  | some out =>
    obtain ⟨hnul,rfl,after,hwrite⟩ := haccepts out htarget
    rw [deliver_of_target _ _ _ htarget,hnul]
    simp only [Bool.false_eq_true,if_false,Conclusion.settle,hwrite]
    exact ⟨_,after,rfl,rfl,.saved htokens hmade htarget (FileTree.saved_of_write hwrite)⟩

theorem settle_deliver_of_not_accepts (haccepts : ¬Accepts tree obstacle settings text) :
    Failed tree ((deliver settings level records text).settle tree obstacle) := by
  cases htarget : settings.target? with
  | none =>
    refine absurd ?_ haccepts
    intro out hout
    rw [htarget] at hout
    cases hout
  | some out =>
    rw [deliver_of_target _ _ _ htarget]
    cases hnul : (Path.parse out).hasNul with
    | true => exact .abort rfl
    | false =>
      simp only [Bool.false_eq_true,if_false,Conclusion.settle]
      cases obstacle with
      | some fault => exact .reply (by simp [written]) rfl
      | none =>
        cases hwrite : tree.write (Path.parse out) text.toUTF8.toList with
        | error fault => exact .reply (by simp [written]) rfl
        | ok after =>
          refine absurd ?_ haccepts
          intro other hother
          obtain rfl : out = other := Option.some.inj (htarget.symm.trans hother)
          exact ⟨hnul,rfl,after,hwrite⟩

end

/-! ### Runs -/

section
variable {args : List String} {source : String} {text : List Char}
  (hargs : parseArguments args = .ok (settings,source))
  (hload : (loadInput s settings source).result = .ok (isa,text))
include hargs hload

theorem run_of_no_tokens (htokens : Source.tokens Source.comment text = []) :
    ∃ r, run s args = .reply r ∧ r.exit = 0 ∧ r.stdout = "" := by
  simp only [run,hargs,carryOut,hload,htokens]
  exact ⟨_,rfl,rfl,rfl⟩

theorem run_of_made {words code : String} (htokens : Source.tokens Source.comment text ≠ [])
    (hmade : Made s settings isa (Source.tokens Source.comment text) words code) :
    ∃ level records, run s args = deliver settings level records (words ++ code) := by
  have houtput := output_eq_ok.mpr ⟨words,code,hmade,rfl⟩
  simp only [run,hargs,carryOut,hload,houtput]
  exact ⟨_,_,rfl⟩

theorem run_of_not_made (htokens : Source.tokens Source.comment text ≠ [])
    (hmade : ∀ words code, ¬Made s settings isa (Source.tokens Source.comment text) words code)
    (tree : FileTree) (obstacle : Option WriteFault) :
    Failed tree ((run s args).settle tree obstacle) := by
  cases houtput : (output s settings isa (Source.tokens Source.comment text)).result with
  | ok made =>
    obtain ⟨words,code,h,-⟩ := output_eq_ok.mp houtput
    exact absurd h (hmade words code)
  | error e =>
    simp only [run,hargs,carryOut,hload,houtput]
    cases e.abort? with
    | some a => exact .abort rfl
    | none => exact .reply (by simp) rfl

end

theorem run_of_not_loaded {args : List String} {source : String}
    (hargs : parseArguments args = .ok (settings,source)) {e : LoadError}
    (hload : (loadInput s settings source).result = .error e) (tree : FileTree)
    (obstacle : Option WriteFault) : Failed tree ((run s args).settle tree obstacle) := by
  simp only [run,hargs,carryOut,hload]
  cases e with
  | abort a => exact .abort rfl
  | unreadable u => exact .reply (by simp) rfl
  | badLine line name => exact .reply (by simp) rfl

theorem run_of_usage {args : List String} {message : String}
    (hargs : parseArguments args = .error (.usage message)) (tree : FileTree)
    (obstacle : Option WriteFault) : Failed tree ((run s args).settle tree obstacle) := by
  simp only [run,hargs]
  exact .reply (by simp [Stop.reply]) rfl

end

section
variable {s : Surroundings} {args : List String} {tree : FileTree} {obstacle : Option WriteFault}

theorem settle_run_of_possible (h : Possible s args tree obstacle) :
    ∃ settings source isa text r after, parseArguments args = .ok (settings,source) ∧
      (loadInput s settings source).result = .ok (isa,text) ∧
      (run s args).settle tree obstacle = ⟨.ok r,after⟩ ∧ r.exit = 0 ∧
      Delivered s settings isa (Source.tokens Source.comment text) tree r.stdout after := by
  obtain ⟨settings,source,isa,text,hargs,hload,hmade⟩ := h
  by_cases htokens : Source.tokens Source.comment text = []
  · obtain ⟨r,hrun,hexit,hsilent⟩ := run_of_no_tokens hargs hload htokens
    refine ⟨settings,source,isa,text,r,tree,hargs,hload,by rw [hrun]; rfl,hexit,?_⟩
    rw [hsilent]
    exact .nothing htokens
  · obtain ⟨words,code,hmade,haccepts⟩ := hmade.resolve_left htokens
    obtain ⟨level,records,hrun⟩ := run_of_made hargs hload htokens hmade
    obtain ⟨r,after,hleft,hexit,hdelivered⟩ :=
      settle_deliver_of_accepts level records htokens hmade haccepts
    rw [hrun]
    exact ⟨settings,source,isa,text,r,after,hargs,hload,hleft,hexit,hdelivered⟩

theorem settle_run_of_not_possible (h : ¬Possible s args tree obstacle) :
    Failed tree ((run s args).settle tree obstacle) ∨ parseArguments args = .error .help := by
  cases hargs : parseArguments args with
  | error stop =>
    cases stop with
    | help => exact .inr rfl
    | usage message => exact .inl (run_of_usage hargs tree obstacle)
  | ok given =>
    refine .inl ?_
    obtain ⟨settings,source⟩ := given
    cases hload : (loadInput s settings source).result with
    | error e => exact run_of_not_loaded hargs hload tree obstacle
    | ok input =>
      obtain ⟨isa,text⟩ := input
      have hrest : ¬(Source.tokens Source.comment text = [] ∨ ∃ words code,
          Made s settings isa (Source.tokens Source.comment text) words code ∧
          Accepts tree obstacle settings (words ++ code)) :=
        fun hrest => h ⟨settings,source,isa,text,hargs,hload,hrest⟩
      obtain ⟨htokens,hmade⟩ := not_or.mp hrest
      by_cases hany : ∃ words code,
          Made s settings isa (Source.tokens Source.comment text) words code
      · obtain ⟨words,code,hwords⟩ := hany
        obtain ⟨level,records,hrun⟩ := run_of_made hargs hload htokens hwords
        rw [hrun]
        exact settle_deliver_of_not_accepts level records _
          fun haccepts => hmade ⟨words,code,hwords,haccepts⟩
      · exact run_of_not_made hargs hload htokens (fun words code hwords => hany ⟨words,code,hwords⟩)
          tree obstacle

end

/-- A run that breaks off shows nothing and leaves all files as they are, and so does one that replies
with a failure. One that replies with success, other than with help, has delivered the output of
its source, words first and nothing besides; and it does succeed if its output can be made and, if
a file is asked for, can be written there. -/
theorem writes_all_or_nothing (s : Surroundings) (args : List String) (tree : FileTree)
    (obstacle : Option WriteFault) :
    let left := (run s args).settle tree obstacle
    (∀ i, left.reply = .error i → i.shown = "" ∧ left.files = tree) ∧
    (∀ r, left.reply = .ok r → r.exit ≠ 0 → r.stdout = "" ∧ left.files = tree) ∧
    (∀ r, left.reply = .ok r → r.exit = 0 → parseArguments args ≠ .error .help →
      ∃ settings source isa text, parseArguments args = .ok (settings,source) ∧
        (loadInput s settings source).result = .ok (isa,text) ∧
        Delivered s settings isa (Source.tokens Source.comment text) tree r.stdout left.files) ∧
    (Possible s args tree obstacle → ∃ r, left.reply = .ok r ∧ r.exit = 0) := by
  intro left
  by_cases hpossible : Possible s args tree obstacle
  · obtain ⟨settings,source,isa,text,r,after,hargs,hload,hleft,hexit,hdelivered⟩ :=
      settle_run_of_possible hpossible
    have hreply : left.reply = .ok r := congrArg Aftermath.reply hleft
    have hfiles : left.files = after := congrArg Aftermath.files hleft
    refine ⟨?_,?_,?_,fun _ => ⟨r,hreply,hexit⟩⟩
    · intro a ha
      cases hreply.symm.trans ha
    · intro other hother hne
      cases hreply.symm.trans hother
      exact absurd hexit hne
    · intro other hother _ _
      cases hreply.symm.trans hother
      rw [hfiles]
      exact ⟨settings,source,isa,text,hargs,hload,hdelivered⟩
  · obtain hfailed | hhelp := settle_run_of_not_possible hpossible
    · refine ⟨?_,?_,?_,fun h => absurd h hpossible⟩
      · intro i hi
        exact ⟨hfailed.silent_of_abort hi,hfailed.files⟩
      · intro r hr _
        exact ⟨(hfailed.silent hr).2,hfailed.files⟩
      · intro r hr hexit
        exact absurd hexit (hfailed.silent hr).1
    · have hreply : left.reply = .ok (Stop.help.reply "m86asm" usage help) := by
        simp only [left,run,hhelp,Conclusion.settle]
      refine ⟨?_,?_,fun _ _ _ hne => absurd hhelp hne,fun h => absurd h hpossible⟩
      · intro a ha
        cases hreply.symm.trans ha
      · intro r hr hne
        cases hreply.symm.trans hr
        exact absurd rfl hne

/-- Both outputs of a source of one word go to a file, words first; the source stays. -/
theorem writes_both_outputs_to_file :
    let tree := FileTree.ofFiles [(["p.asm"],.file [72,65,76,84])]
    let s : Surroundings := ⟨tree.look,fun _ => none,⟨2014,10,24,14,50,12⟩,⟨250,by decide⟩⟩
    let left := (run s ["--m86","--cpp","-o","p.out","p.asm"]).settle tree none
    let words := "01000000\n"
    let code := "#include <iostream>\n#include <cstdlib>\nusing namespace std;\n\n" ++
      "int main() \x7b\nint _acc = 0, _cmp;\nchar _byte;\ncin >> noskipws;\n\n" ++
      "// === Declarations ===\n\n\n// === Operations ===\n\nexit(0);\n\n" ++
      "// === HALT Bypassed ===\n\nexit(1);\n\x7d\n"
    (∃ r, left.reply = .ok r ∧ r.exit = 0 ∧ r.stdout = "") ∧
    left.files.status ["tmp","work","p.asm"] = .file [72,65,76,84] ∧
    left.files.status ["tmp","work","p.out"] = .file (words ++ code).toUTF8.toList := by
  intro tree s left words code
  let settings : Settings := { words := true, code := true, out := .given "p.out" }
  have hargs : parseArguments ["--m86","--cpp","-o","p.out","p.asm"] =
      .ok (settings,"p.asm") := by decide +kernel
  have hread : readText s.files (Path.parse "p.asm") = .ok ['H','A','L','T'] := by decide +kernel
  have hload : (loadInput s settings "p.asm").result =
      .ok (InstructionSet.bundled,['H','A','L','T']) := by
    have hset : (loadSet s settings.isa).result = .ok InstructionSet.bundled := loadSet_none s
    rw [loadInput,result_bind,hset,ok_bind,hread]
    rfl
  have htokens : Source.tokens Source.comment ['H','A','L','T'] = [⟨"HALT",1⟩] := by decide +kernel
  have hwords : renderWords s InstructionSet.bundled [⟨"HALT",1⟩] false (.given .hex) =
      .ok words := by
    rw [InstructionSet.bundled_eq]
    decide +kernel
  have hcode : renderCode s InstructionSet.bundled [⟨"HALT",1⟩] false = .ok code := by
    rw [InstructionSet.bundled_eq]
    decide +kernel
  have hmade : Made s settings InstructionSet.bundled [⟨"HALT",1⟩] words code := ⟨hwords,hcode⟩
  have hwalk : tree.walk (Path.parse "p.out") = .ok ["tmp","work","p.out"] := by decide +kernel
  have habsent : tree.status ["tmp","work","p.out"] = .absent := by decide +kernel
  have haccepts : Accepts tree none settings (words ++ code) := by
    intro out hout
    cases hout
    exact ⟨by decide +kernel,rfl,_,FileTree.write_of_absent _ hwalk habsent⟩
  obtain ⟨-,-,hsuccess,hexit⟩ := writes_all_or_nothing s ["--m86","--cpp","-o","p.out","p.asm"]
    tree none
  have hleft : (run s ["--m86","--cpp","-o","p.out","p.asm"]).settle tree none = left := rfl
  rw [hleft] at hsuccess hexit
  obtain ⟨r,hr,hzero⟩ := hexit
    ⟨settings,"p.asm",_,_,hargs,hload,.inr ⟨words,code,htokens ▸ hmade,haccepts⟩⟩
  obtain ⟨_,_,_,_,hargs',hload',hdelivered⟩ := hsuccess r hr hzero (by rw [hargs]; simp)
  cases hargs.symm.trans hargs'
  cases hload.symm.trans hload'
  rw [htokens] at hdelivered
  obtain ⟨_,_,hmade',hsilent,hsaved⟩ := hdelivered.of_target (by simp) rfl
  obtain rfl := Except.ok.inj (hwords.symm.trans hmade'.words)
  obtain rfl := Except.ok.inj (hcode.symm.trans hmade'.code)
  obtain ⟨hholds,hrest⟩ := hsaved.of_absent hwalk habsent
  have hsource : left.files.status ["tmp","work","p.asm"] = .file [72,65,76,84] := by
    rw [hrest _ (by decide)]
    decide +kernel
  exact ⟨⟨r,hr,hzero,hsilent⟩,hsource,hholds⟩

end Micro86.Command.Assemble
