import KyogenRV.Core.Constant

/-!
# Instruction bit patterns

The patterns of `Instructions.scala`, each as the value of its fixed bits and
the mask of their positions.
-/

namespace KyogenRV.Instructions

abbrev beq : BitPat := ⟨0x00000063, 0x0000707f⟩
abbrev bne : BitPat := ⟨0x00001063, 0x0000707f⟩
abbrev blt : BitPat := ⟨0x00004063, 0x0000707f⟩
abbrev bge : BitPat := ⟨0x00005063, 0x0000707f⟩
abbrev bltu : BitPat := ⟨0x00006063, 0x0000707f⟩
abbrev bgeu : BitPat := ⟨0x00007063, 0x0000707f⟩
abbrev jalr : BitPat := ⟨0x00000067, 0x0000707f⟩
abbrev jal : BitPat := ⟨0x0000006f, 0x0000007f⟩
abbrev lui : BitPat := ⟨0x00000037, 0x0000007f⟩
abbrev auipc : BitPat := ⟨0x00000017, 0x0000007f⟩
abbrev addi : BitPat := ⟨0x00000013, 0x0000707f⟩
abbrev slli : BitPat := ⟨0x00001013, 0xfe00707f⟩
abbrev slti : BitPat := ⟨0x00002013, 0x0000707f⟩
abbrev sltiu : BitPat := ⟨0x00003013, 0x0000707f⟩
abbrev xori : BitPat := ⟨0x00004013, 0x0000707f⟩
abbrev srli : BitPat := ⟨0x00005013, 0xfc00707f⟩
abbrev srai : BitPat := ⟨0x40005013, 0xfc00707f⟩
abbrev ori : BitPat := ⟨0x00006013, 0x0000707f⟩
abbrev andi : BitPat := ⟨0x00007013, 0x0000707f⟩
abbrev add : BitPat := ⟨0x00000033, 0xfe00707f⟩
abbrev sub : BitPat := ⟨0x40000033, 0xfe00707f⟩
abbrev sll : BitPat := ⟨0x00001033, 0xfe00707f⟩
abbrev slt : BitPat := ⟨0x00002033, 0xfe00707f⟩
abbrev sltu : BitPat := ⟨0x00003033, 0xfe00707f⟩
abbrev xor : BitPat := ⟨0x00004033, 0xfe00707f⟩
abbrev srl : BitPat := ⟨0x00005033, 0xfe00707f⟩
abbrev sra : BitPat := ⟨0x40005033, 0xfe00707f⟩
abbrev or : BitPat := ⟨0x00006033, 0xfe00707f⟩
abbrev and : BitPat := ⟨0x00007033, 0xfe00707f⟩
abbrev lb : BitPat := ⟨0x00000003, 0x0000707f⟩
abbrev lh : BitPat := ⟨0x00001003, 0x0000707f⟩
abbrev lw : BitPat := ⟨0x00002003, 0x0000707f⟩
abbrev lbu : BitPat := ⟨0x00004003, 0x0000707f⟩
abbrev lhu : BitPat := ⟨0x00005003, 0x0000707f⟩
abbrev sb : BitPat := ⟨0x00000023, 0x0000707f⟩
abbrev sh : BitPat := ⟨0x00001023, 0x0000707f⟩
abbrev sw : BitPat := ⟨0x00002023, 0x0000707f⟩
abbrev fence : BitPat := ⟨0x0000000f, 0x0000707f⟩
abbrev fenceI : BitPat := ⟨0x0000100f, 0x0000707f⟩
abbrev ecall : BitPat := ⟨0x00000073, 0xffffffff⟩
abbrev ebreak : BitPat := ⟨0x00100073, 0xffffffff⟩
abbrev mret : BitPat := ⟨0x30200073, 0xffffffff⟩
abbrev eret : BitPat := ⟨0x10000073, 0xffffffff⟩
abbrev csrrw : BitPat := ⟨0x00001073, 0x0000707f⟩
abbrev csrrs : BitPat := ⟨0x00002073, 0x0000707f⟩
abbrev csrrc : BitPat := ⟨0x00003073, 0x0000707f⟩
abbrev csrrwi : BitPat := ⟨0x00005073, 0x0000707f⟩
abbrev csrrsi : BitPat := ⟨0x00006073, 0x0000707f⟩
abbrev csrrci : BitPat := ⟨0x00007073, 0x0000707f⟩

/-- `addi x0, x0, 0`, the bubble. -/
abbrev nop : Word := 0x00000013

end KyogenRV.Instructions
