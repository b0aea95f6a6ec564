import KyogenRV.Core.Boot
import KyogenRV.Core.ByteAccess
import KyogenRV.Core.Counters
import KyogenRV.Core.CsrSource
import KyogenRV.Core.DataPort
import KyogenRV.Core.DecodeLegal
import KyogenRV.Core.DecodeLogic
import KyogenRV.Core.FetchPaired
import KyogenRV.Core.Immediate
import KyogenRV.Core.InstRet
import KyogenRV.Core.Interrupt
import KyogenRV.Core.InterruptEnable
import KyogenRV.Core.Loading
import KyogenRV.Core.MemRefinement
import KyogenRV.Core.Progress
import KyogenRV.Core.MepcAligned
import KyogenRV.Core.MisalignedTarget
import KyogenRV.Core.PortHold
import KyogenRV.Core.Refinement
import KyogenRV.Core.TrapReturn
import KyogenRV.Fpga.AvalonMM
import KyogenRV.Sw.Main
import KyogenRV.Sw.RegisterRuns
import KyogenRV.Sw.Configuration
import KyogenRV.Sw.XprintfInput
import KyogenRV.Tools.MkIntelHex
