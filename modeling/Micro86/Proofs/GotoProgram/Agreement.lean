import Micro86.Proofs.GotoProgram.Naming
import Micro86.Proofs.GotoProgram.Simulation
import Micro86.Proofs.Machine.Simulation

/-!
The text of the labelled statements of a program and the machine that boots with its image
agree. As long as the text has a meaning and does not fall into its last exit, the machine
goes on, one step for the statements of one instruction.
-/
namespace Micro86.GotoProgram

/-- The text of a program is read back, and all its jumps find their labels. After any number
of operations that have a meaning, without the exit behind them, as many steps of the machine
succeed; then the machine has the same accumulator, variables, input and output and is at the
same place, its flags are those of the last comparison, and it has halted if the text has left
with success. -/
theorem booted_image_runs_text {text : List Char} {p : Program} {image : Image}
    {g : GotoProgram} {capacity : Nat} {memorySize : Int} {resize : Bool} {input : List Char}
    {m : Machine}
    (hparse : Program.parse InstructionSet.bundled (Source.tokens Source.comment text) = .ok p)
    (himage : Image.ofProgram InstructionSet.bundled p = .ok image)
    (hgoto : ofProgram InstructionSet.bundled p = .ok g)
    (hvalues : ∀ code, p.resolve InstructionSet.bundled = .ok code → ValuesFit code)
    (hinput : ∀ c ∈ input, c.toNat < 0x80)
    (hboot : Machine.boot capacity InstructionSet.bundled (image.words.map Int.ofNat) memorySize
      resize input = .ok m) :
    read g.render = some g ∧
    ∀ n, g.after n (g.start input) ≠ .error .noLabel ∧
      ∀ s, g.after n (g.start input) = .ok s → s.exited ≠ some 1 →
        ∃ k, m.after n = .ok (k,shown s.output) ∧ k.cpu.acc = s.acc ∧
          (∀ name a, p.address? name = some a → k.cpu.memory[a]? = some (s.store name)) ∧
          (s.exited = none → k.cpu.ip = s.place) ∧
          k.cpu.zero = s.comparison.any (· = 0) ∧ k.cpu.sign = s.comparison.any (· < 0) ∧
          k.input = s.input ∧ (k.halted = true ↔ s.exited = some 0) := by
  have hp := Program.wellFormed_of_parse InstructionSet.bundled_regular.keyword hparse
  have hplain := plain_of_parse InstructionSet.bundled_regular.keyword hparse
  obtain ⟨code,hcode,hl⟩ := Image.linked_of_ofProgram InstructionSet.bundled_regular hp himage
  obtain ⟨code',numeric,hcode',hc⟩ := compiled_of_ofProgram hgoto
  obtain rfl : code = code' := Except.ok.inj (hcode.symm.trans hcode')
  refine ⟨hc.read_render hcode hplain,?_⟩
  intro n
  have hstart := follows_start hc.declarations hp.value hp.vars_nodup hinput
  obtain ⟨hlabel,hrun⟩ := after_kept hc hp.labels_nodup (fun _ => hl.bound)
    (hvalues code hcode) hstart n
  refine ⟨hlabel,?_⟩
  intro s hs hexit
  obtain ⟨hpc,t,ht,hfollows⟩ := hrun s hs hexit
  have hmatches := boot_agrees hl hboot n hpc
  rw [ht] at hmatches
  obtain ⟨k,hafter,hagrees⟩ := Matches.of_ok hmatches
  refine ⟨k,by rw [hafter,hfollows.output],hagrees.acc.trans hfollows.acc,?_,?_,
    hagrees.zero.trans hfollows.zero,hagrees.sign.trans hfollows.sign,
    hagrees.input.trans hfollows.input,by rw [hagrees.halted,hfollows.halted]⟩
  · intro name a ha
    rw [hagrees.vars name a ha,hfollows.store]
  · intro hnone
    rw [hagrees.ip,hfollows.place hnone]

/-- A program that waits for a letter, keeps it in a variable and shows it. -/
theorem booted_image_runs_text_loop :
    let text := "again: IN\nCMPI 65\nJNEI again\nSTORE x\nOUT\nHALT\nVAR x 0\n".toList
    let p : Program := ⟨[⟨0x1100,"IN",none,1⟩,⟨0x0901,"CMPI",some "65",2⟩,
      ⟨0x0C01,"JNEI",some "again",3⟩,⟨0x0302,"STORE",some "x",4⟩,⟨0x1200,"OUT",none,5⟩,
      ⟨0x0100,"HALT",none,6⟩],[("again",0)],[("x",0)]⟩
    let image : Image :=
      ⟨[0x11000000,0x09010041,0x0C010000,0x03020006,0x12000000,0x01000000],[0]⟩
    let g : GotoProgram := ⟨[("x",0)],[⟨["again"],[.readByte,.takeByte]⟩,
      ⟨[],[.compare (.number 65)]⟩,⟨[],[.branch .ne "again"]⟩,⟨[],[.store "x"]⟩,
      ⟨[],[.writeChar]⟩,⟨[],[.exit 0]⟩],[]⟩
    Program.parse InstructionSet.bundled (Source.tokens Source.comment text) = .ok p ∧
    Image.ofProgram InstructionSet.bundled p = .ok image ∧
    ofProgram InstructionSet.bundled p = .ok g ∧ read g.render = some g ∧
    ∃ m k, Machine.boot 20 InstructionSet.bundled (image.words.map Int.ofNat) 8 false ['Z','A'] =
        .ok m ∧
      m.after 9 = .ok (k,"A\n") ∧ k.cpu.memory[6]? = some 65 ∧ k.halted = true := by
  intro text p image g
  have hparse : Program.parse InstructionSet.bundled (Source.tokens Source.comment text) =
      .ok p := by
    rw [InstructionSet.bundled_eq]
    simp only [text,String.reduceToList]
    decide +kernel
  have himage : Image.ofProgram InstructionSet.bundled p = .ok image := by
    rw [InstructionSet.bundled_eq]
    decide +kernel
  have hgoto : ofProgram InstructionSet.bundled p = .ok g := by
    rw [InstructionSet.bundled_eq]
    decide +kernel
  have hvalues : ∀ code, p.resolve InstructionSet.bundled = .ok code → ValuesFit code := by
    have hfit : ((p.resolve ⟨InstructionSet.bundledSource,InstructionSet.bundledEntries⟩).toOption
        |>.all fun code => ValuesFit code) = true := by decide +kernel
    intro code hcode
    rw [InstructionSet.bundled_eq] at hcode
    simpa [hcode,Except.toOption] using hfit
  obtain ⟨m,hboot⟩ : ∃ m, Machine.boot 20 InstructionSet.bundled (image.words.map Int.ofNat) 8 false
      ['Z','A'] = .ok m := ⟨_,rfl⟩
  obtain ⟨hread,hruns⟩ :=
    booted_image_runs_text hparse himage hgoto hvalues (by simp) hboot
  obtain ⟨s,hs,houtput,hstore,hexit⟩ : ∃ s, g.after 9 (g.start ['Z','A']) = .ok s ∧
      shown s.output = "A\n" ∧ s.store "x" = 65 ∧ s.exited = some 0 :=
    ⟨_,rfl,by decide +kernel,by decide +kernel,by decide +kernel⟩
  obtain ⟨k,hafter,-,hvars,-,-,-,-,hhalted⟩ := (hruns 9).2 s hs (by simp [hexit])
  exact ⟨hparse,himage,hgoto,hread,m,k,hboot,houtput ▸ hafter,
    (hvars "x" 6 rfl).trans (congrArg some hstore),hhalted.mpr hexit⟩

end Micro86.GotoProgram
