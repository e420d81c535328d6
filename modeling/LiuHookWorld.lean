import LiuHookWorld.Ber
import LiuHookWorld.SizeT
import LiuHookWorld.V1SigTlv
import LiuHookWorld.V1SigText
import LiuHookWorld.V1SigParse
import LiuHookWorld.V1SigDump
import LiuHookWorld.V1SigRoundTrip
import LiuHookWorld.V1SigSound
import LiuHookWorld.V1SigBounds
import LiuHookWorld.V1SigPositions
import LiuHookWorld.Base128
import LiuHookWorld.Decimal
import LiuHookWorld.V1SigOid
import LiuHookWorld.V1SigContainer
import LiuHookWorld.V1SigAscii
import LiuHookWorld.CString
import LiuHookWorld.Runs
import LiuHookWorld.WatchDogTask
import LiuHookWorld.FirstMatch
import LiuHookWorld.WatchDogRegistry
import LiuHookWorld.WatchDogSystem
import LiuHookWorld.WatchDogSteps
import LiuHookWorld.WatchDogInstall
import LiuHookWorld.WatchDogNotify
import LiuHookWorld.WatchDogHandle
import LiuHookWorld.WatchDogOneShot
import LiuHookWorld.WatchDogOrder
import LiuHookWorld.WatchDogLoaded
import LiuHookWorld.WatchDogLibraries
import LiuHookWorld.WatchDogPaths
import LiuHookWorld.WatchDogSymbols
import LiuHookWorld.WatchDogDlopen
import LiuHookWorld.WatchDogScanner
import LiuHookWorld.Guarded
import LiuHookWorld.DumperText
import LiuHookWorld.DumperApi
import LiuHookWorld.DumperTraversal
import LiuHookWorld.DumperResolved
import LiuHookWorld.DumperNullFree
import LiuHookWorld.Utf16
import LiuHookWorld.DumperStrings
import LiuHookWorld.ApkName
import LiuHookWorld.Fgets
import LiuHookWorld.MemoryMap
import LiuHookWorld.MemoryMapSearch
import LiuHookWorld.Frame
import LiuHookWorld.DumperFrame
import LiuHookWorld.Il2CppHook
import LiuHookWorld.Il2CppHookRuns
import LiuHookWorld.ManagedType
import LiuHookWorld.DumperFields
import LiuHookWorld.DumperNumbers
import LiuHookWorld.DumperValues
import LiuHookWorld.DumperLines
import LiuHookWorld.Shell
import LiuHookWorld.ShellWords
import LiuHookWorld.RootHelpers
import LiuHookWorld.WriteFile
import LiuHookWorld.Nesting
import LiuHookWorld.SoinfoScan
import LiuHookWorld.LinkerInit
import LiuHookWorld.LinkerRuns
import LiuHookWorld.LinkerThreads
import LiuHookWorld.HookAdapter
import LiuHookWorld.HookAdapterRuns
import LiuHookWorld.HookAdapterOriginals
import LiuHookWorld.ByteMemory
import LiuHookWorld.A64
import LiuHookWorld.A64Rewrite
import LiuHookWorld.A64Relocation
import LiuHookWorld.A64Enter
import LiuHookWorld.Bitmap
import LiuHookWorld.Trampo
import LiuHookWorld.TrampoRuns
import LiuHookWorld.HubProxies
import LiuHookWorld.HubStack
import LiuHookWorld.HubRuns
import LiuHookWorld.ExitGaps
import LiuHookWorld.ExitRuns
import LiuHookWorld.InstHook
import LiuHookWorld.InstPieces
import LiuHookWorld.InstRuns
import LiuHookWorld.Switch
import LiuHookWorld.SwitchCalls
import LiuHookWorld.SwitchRuns
import LiuHookWorld.Task
import LiuHookWorld.TaskRuns
