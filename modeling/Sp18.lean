import Sp18.Foundation.StepSystem
import Sp18.Foundation.CInt
import Sp18.Foundation.ByteMemory
import Sp18.Foundation.ParentChain
import Sp18.Foundation.FuelLoop
import Sp18.Foundation.Checked
import Sp18.Foundation.BreadthFirst
import Sp18.Foundation.Grid
import Sp18.Foundation.TextScreen
import Sp18.Foundation.CString
import Sp18.Foundation.Words
import Sp18.Foundation.Numeral
import Sp18.Foundation.WordMoves
import Sp18.Foundation.Ring
import Sp18.Foundation.Framing
import Sp18.Foundation.LinkedList
import Sp18.Foundation.PageTables
import Sp18.Foundation.Records
import Sp18.Foundation.Mutex
import Sp18.Foundation.Draws
import Sp18.Kernel.Filesys
import Sp18.Kernel.ReadData
import Sp18.Kernel.Terminal
import Sp18.Kernel.LineEditing
import Sp18.Kernel.Output
import Sp18.Kernel.Writing
import Sp18.Kernel.OutputAccesses
import Sp18.Kernel.Rendering
import Sp18.Kernel.Keyboard
import Sp18.Kernel.KeyboardAccesses
import Sp18.Kernel.TypedLine
import Sp18.Kernel.SwitchBack
import Sp18.Kernel.Process
import Sp18.Kernel.FileDescriptors
import Sp18.Kernel.DescriptorTable
import Sp18.Kernel.Strings
import Sp18.Kernel.StringMoves
import Sp18.Kernel.Itoa
import Sp18.Kernel.Printf
import Sp18.Kernel.Format
import Sp18.Kernel.Names
import Sp18.Kernel.ContextSwitch
import Sp18.Kernel.Outcome
import Sp18.Kernel.ProcessTree
import Sp18.Kernel.Handover
import Sp18.Kernel.SavedContexts
import Sp18.Kernel.ExitStatus
import Sp18.Kernel.VidmapEntry
import Sp18.Kernel.Paging
import Sp18.Kernel.Isolation
import Sp18.Kernel.TerminalRead
import Sp18.Kernel.LineReading
import Sp18.Kernel.ReadBounds
import Sp18.Kernel.Listing
import Sp18.Kernel.FileReading
import Sp18.Kernel.FileText
import Sp18.Kernel.DiskLayout
import Sp18.Kernel.Loading
import Sp18.Kernel.Parsing
import Sp18.Kernel.Executing
import Sp18.Kernel.RejectedCalls
import Sp18.Kernel.Rtc
import Sp18.MazeGame.Maze
import Sp18.MazeGame.MakeMaze
import Sp18.MazeGame.BuiltMaze
import Sp18.MazeGame.Rooms
import Sp18.MazeGame.Digging
import Sp18.MazeGame.Connecting
import Sp18.MazeGame.Marking
import Sp18.MazeGame.MazeAccesses
import Sp18.MazeGame.Modex
import Sp18.MazeGame.ViewWindow
import Sp18.MazeGame.PlayerMask
import Sp18.MazeGame.ShowScreen
import Sp18.MazeGame.Game
import Sp18.MazeGame.Motion
import Sp18.MazeGame.Picture
import Sp18.MazeGame.GameAccesses
import Sp18.MazeGame.Panning
import Sp18.MazeGame.Fruits
import Sp18.MazeGame.Text
import Sp18.MazeGame.KeyboardThread
import Sp18.TuxController.LineDiscipline
import Sp18.TuxController.Packets
import Sp18.TuxController.Ioctl
import Sp18.TuxController.Link
import Sp18.TuxController.Transmission
import Sp18.TuxController.WholeCommands
import Sp18.TuxController.Backlog
import Sp18.MazeGame.TimeDisplay
import Sp18.MazeGame.StatusBar
import Sp18.MazeGame.Display
import Sp18.MazeGame.MakeMazeReturns
import Sp18.MazeGame.Threads
import Sp18.MazeGame.Atomicity
import Sp18.MazeGame.Shutdown
import Sp18.Blink.Mp1
import Sp18.Blink.Searching
import Sp18.Blink.Tasklet
import Sp18.Blink.Commands
import Sp18.Blink.Refinement
import Sp18.Blink.AddExits
import Sp18.Blink.Blinking
import Sp18.Fish.BlinkList
import Sp18.Fish.Commands
import Sp18.Fish.Conforming
import Sp18.Fish.Refinement
import Sp18.Fish.Screen
import Sp18.Fish.Frames
import Sp18.Fish.Animation
import Sp18.UserPrograms.Calls
import Sp18.UserPrograms.Reading
import Sp18.UserPrograms.Cat
import Sp18.UserPrograms.Ls
import Sp18.UserPrograms.Grep
import Sp18.UserPrograms.GrepFile
import Sp18.UserPrograms.GrepMain
